import Goat.Proofs.Positions
import Mathlib.Data.List.TakeWhile

/-!
# Tokens partition the source

The pieces of a line, written one after the other, are the line. A piece is a delimiter, and then
the longest one that starts there, or it has no delimiter in it and reaches from a delimiter or
the start of the line to a delimiter or its end. The tokens are the pieces that are not white
space, in the order in which they stand in the source.
-/

namespace Goat

/-- `a` ends before `b` starts. -/
def Span.EndsBefore (a b : Span) : Prop :=
  a.endLine < b.startLine ∨ a.endLine = b.startLine ∧ a.endCol ≤ b.startCol

/-! ### White space -/

namespace Text

theorem bytes_ne_nil_of_mem_glyphs {t : Text} {u : Glyph} (h : u ∈ glyphs t) : u.bytes ≠ [] := by
  fun_induction glyphs t with
  | case1 => cases h
  | case2 b rest char size hfirst ih =>
    rcases List.mem_cons.1 h with rfl | h
    · exact List.cons_ne_nil _ _
    · exact ih h

/-- Nothing is left of a text without the white space around it exactly if all of it is. -/
theorem trim_eq_nil_iff {t : Text} : trim t = [] ↔ isBlank t = true := by
  have hbytes (us : List Glyph) (hus : ∀ u ∈ us, u ∈ glyphs t) : ofGlyphs us = [] ↔ us = [] := by
    constructor
    · intro h
      cases us with
      | nil => rfl
      | cons u us =>
        have hfirst := List.flatMap_eq_nil_iff.1 h u List.mem_cons_self
        exact absurd hfirst (bytes_ne_nil_of_mem_glyphs (hus u List.mem_cons_self))
    · rintro rfl
      rfl
  have hall : ∀ u ∈ (((glyphs t).dropWhile Glyph.isBlank).reverse.dropWhile Glyph.isBlank).reverse,
      u ∈ glyphs t := by
    intro u hu
    have hu := (List.dropWhile_sublist _).mem (List.mem_reverse.1 hu)
    exact (List.dropWhile_sublist _).mem (List.mem_reverse.1 hu)
  rw [trim, hbytes _ hall, List.reverse_eq_nil_iff, List.dropWhile_eq_nil_iff, isBlank,
    List.all_eq_true]
  constructor
  · intro h
    have hnil : (glyphs t).dropWhile Glyph.isBlank = [] := by
      -- What dropping stops at is no white space.
      by_cases hne : (glyphs t).dropWhile Glyph.isBlank = []
      · exact hne
      · have hhead := h _ (List.mem_reverse.2 (List.head_mem hne))
        cases hhead.symm.trans (List.head_dropWhile_not _ hne)
    exact List.dropWhile_eq_nil_iff.1 hnil
  · intro h u hu
    exact h u ((List.dropWhile_sublist _).mem (List.mem_reverse.1 hu))

end Text

namespace Token

/-! ### Delimiters -/

/-- The delimiters: those of two characters go first. -/
def delimiters : List Text := pairs ++ singles.map fun a => [a]

/-- A delimiter stands at the start of the text. -/
def OpensDelimiter (t : Text) : Prop := ∃ d ∈ delimiters, d <+: t

theorem mem_delimiters_of_isSingle {a : UInt8} (h : isSingle a = true) : [a] ∈ delimiters :=
  List.mem_append_right _ (List.mem_map_of_mem (of_decide_eq_true h))

theorem mem_delimiters_of_isPair {a b : UInt8} (h : isPair a b = true) : [a, b] ∈ delimiters :=
  List.mem_append_left _ (of_decide_eq_true h)

theorem exists_of_mem_pairs {d : Text} (h : d ∈ pairs) :
    ∃ a b, d = [a, b] ∧ isPair a b = true := by
  have hlength : ∀ d ∈ pairs, d.length = 2 := by decide
  match d, hlength d h with
  | [a, b], _ => exact ⟨a, b, rfl, decide_eq_true h⟩

theorem opensDelimiter_cons {a : UInt8} {t : Text} :
    OpensDelimiter (a :: t) ↔ isSingle a = true ∨ ∃ b ∈ t.head?, isPair a b = true := by
  constructor
  · rintro ⟨d, hd, hprefix⟩
    rcases List.mem_append.1 hd with hd | hd
    · obtain ⟨x, y, rfl, hpair⟩ := exists_of_mem_pairs hd
      obtain ⟨rest, hrest⟩ := hprefix
      cases hrest
      exact .inr ⟨y, rfl, hpair⟩
    · obtain ⟨x, hx, rfl⟩ := List.mem_map.1 hd
      obtain ⟨rest, hrest⟩ := hprefix
      cases hrest
      exact .inl (decide_eq_true hx)
  · rintro (hsingle | ⟨b, hb, hpair⟩)
    · exact ⟨[a], mem_delimiters_of_isSingle hsingle, t, rfl⟩
    · obtain ⟨rest, rfl⟩ := List.head?_eq_some_iff.1 hb
      exact ⟨[a, b], mem_delimiters_of_isPair hpair, rest, rfl⟩

/-! ### Pieces -/

/-- How a piece of a line is cut from the piece in front of it, if there is one, and from those
    that follow. -/
inductive CutBetween (last : Option Text) (piece : Text) (rest : List Text) : Prop where
  /-- A delimiter, and no longer one starts where it does. -/
  | delimiter (mem : piece ∈ delimiters)
      (longest : ∀ d ∈ pairs, d <+: piece ++ rest.flatten → d = piece)
  /-- A text in which no delimiter starts, with a delimiter or the end of the line on each side. -/
  | word (bare : ∀ k < piece.length, ¬OpensDelimiter ((piece ++ rest.flatten).drop k))
      (left : ∀ d ∈ last, d ∈ delimiters) (right : ∀ d ∈ rest.head?, d ∈ delimiters)

/-- The pieces are cut where they should be; `last` is the piece in front of them. -/
def WellCut : (last : Option Text) → List Text → Prop
  | _, [] => True
  | last, piece :: rest => CutBetween last piece rest ∧ WellCut (some piece) rest

theorem WellCut.cutBetween {last : Option Text} {front : List Text} {piece : Text}
    {rest : List Text} (h : WellCut last (front ++ piece :: rest)) :
    CutBetween (front.getLast?.or last) piece rest := by
  induction front generalizing last with
  | nil => exact h.1
  | cons p front ih =>
    have hlast : (p :: front).getLast?.or last = front.getLast?.or (some p) := by
      cases front <;> simp [List.getLast?_cons]
    rw [hlast]
    exact ih h.2

theorem flatten_cut (line : Text) : (cut line).flatten = line := flatten_cutFrom [] line

/-- No delimiter starts in the word that has been read when the line goes on. -/
def Bare (word line : Text) : Prop :=
  ∀ k < word.length, ¬OpensDelimiter ((word ++ line).drop k)

theorem Bare.nil (line : Text) : Bare [] line := fun k hk => absurd hk (Nat.not_lt_zero k)

theorem Bare.push {word line : Text} {a : UInt8} (h : Bare word (a :: line))
    (ha : ¬OpensDelimiter (a :: line)) : Bare (word ++ [a]) line := by
  intro k hk
  rw [List.append_assoc, List.singleton_append]
  rcases Nat.lt_or_ge k word.length with hlt | hge
  · exact h k hlt
  · obtain rfl : k = word.length := by
      rw [List.length_append, List.length_singleton] at hk
      omega
    rwa [List.drop_left]

theorem Bare.cutBetween {word line : Text} {last : Option Text} {rest : List Text}
    (h : Bare word line) (hrest : rest.flatten = line) (hlast : ∀ d ∈ last, d ∈ delimiters)
    (hnext : ∀ d ∈ rest.head?, d ∈ delimiters) : CutBetween last word rest :=
  .word (hrest ▸ h) hlast hnext

theorem cutBetween_single {a : UInt8} (ha : isSingle a = true) (last : Option Text)
    {rest : List Text} (hrest : ∀ b ∈ rest.flatten.head?, isPair a b = false) :
    CutBetween last [a] rest := by
  refine .delimiter (mem_delimiters_of_isSingle ha) fun d hd hprefix => ?_
  obtain ⟨x, y, rfl, hpair⟩ := exists_of_mem_pairs hd
  obtain ⟨tail, htail⟩ := hprefix
  obtain ⟨rfl, hflatten⟩ := List.cons.inj htail
  have hnext : rest.flatten.head? = some y := congrArg List.head? hflatten.symm
  rw [hrest y hnext] at hpair
  cases hpair

theorem cutBetween_pair {a b : UInt8} (h : isPair a b = true) (last : Option Text)
    (rest : List Text) : CutBetween last [a, b] rest := by
  refine .delimiter (mem_delimiters_of_isPair h) fun d hd hprefix => ?_
  obtain ⟨x, y, rfl, -⟩ := exists_of_mem_pairs hd
  obtain ⟨tail, htail⟩ := hprefix
  cases htail
  rfl

/-- The pieces from a word on are cut where they should be. -/
theorem wellCut_cutFrom {word line : Text} {last : Option Text} (hword : Bare word.reverse line)
    (hlast : ∀ d ∈ last, d ∈ delimiters) : WellCut last (cutFrom word line) := by
  have hnext {d : Text} (hd : d ∈ delimiters) (rest : List Text) :
      ∀ d' ∈ (d :: rest).head?, d' ∈ delimiters := by
    rintro d' ⟨⟩
    exact hd
  have hprevious {d : Text} (hd : d ∈ delimiters) : ∀ d' ∈ some d, d' ∈ delimiters := by
    rintro d' ⟨⟩
    exact hd
  fun_induction cutFrom word line generalizing last with
  | case1 word => exact ⟨hword.cutBetween rfl hlast (by simp), trivial⟩
  | case2 word a ha =>
    have hmem := mem_delimiters_of_isSingle ha
    exact ⟨hword.cutBetween rfl hlast (hnext hmem _), cutBetween_single ha _ (by simp),
      (Bare.nil []).cutBetween rfl (hprevious hmem) (by simp), trivial⟩
  | case3 word a ha =>
    have hopens : ¬OpensDelimiter [a] := by simp [opensDelimiter_cons, ha]
    rw [List.reverse_cons]
    exact ⟨(hword.push hopens).cutBetween rfl hlast (by simp), trivial⟩
  | case4 word a b rest hpair ih =>
    have hmem := mem_delimiters_of_isPair hpair
    have hflatten : ([a, b] :: cutFrom [] rest).flatten = a :: b :: rest := by
      rw [List.flatten_cons, flatten_cutFrom]
      rfl
    exact ⟨hword.cutBetween hflatten hlast (hnext hmem _), cutBetween_pair hpair _ _,
      ih (Bare.nil rest) (hprevious hmem)⟩
  | case5 word a b rest hpair ha ih =>
    have hmem := mem_delimiters_of_isSingle ha
    have hrest : (cutFrom [] (b :: rest)).flatten = b :: rest := flatten_cutFrom [] (b :: rest)
    have hflatten : ([a] :: cutFrom [] (b :: rest)).flatten = a :: b :: rest := by
      rw [List.flatten_cons, hrest]
      rfl
    refine ⟨hword.cutBetween hflatten hlast (hnext hmem _), cutBetween_single ha _ ?_,
      ih (Bare.nil _) (hprevious hmem)⟩
    rw [hrest]
    rintro b' ⟨⟩
    exact Bool.eq_false_iff.2 hpair
  | case6 word a b rest hpair ha ih =>
    have hopens : ¬OpensDelimiter (a :: b :: rest) := by simp [opensDelimiter_cons, ha, hpair]
    apply ih _ hlast
    rw [List.reverse_cons]
    exact hword.push hopens

/-! ### Tokens -/

/-- `t` is the piece of line `k`, counted from 0, between the pieces `front` and `rest`. -/
structure IsPiece (lines : List Text) (k : Nat) (front : List Text) (t : Token)
    (rest : List Text) : Prop where
  line : ∃ line, lines[k]? = some line ∧ cut line = front ++ t.value :: rest
  span : t.span = ⟨k + 1, front.flatten.length, k + 1, front.flatten.length + t.value.length⟩

/-- What is placed are the pieces that are no white space, each at its column. -/
theorem mem_place {number col : Nat} {pieces : List Text} {t : Token} :
    t ∈ place number col pieces ↔ ∃ front rest, pieces = front ++ t.value :: rest ∧
      Text.isBlank t.value = false ∧ t.span = ⟨number, (col + front.flatten.length : Nat), number,
        (col + front.flatten.length + t.value.length : Nat)⟩ := by
  induction pieces generalizing col with
  | nil => simp [place]
  | cons piece pieces ih =>
    have hshift (front : List Text) :
        col + (piece :: front).flatten.length = col + piece.length + front.flatten.length := by
      rw [List.flatten_cons, List.length_append, Nat.add_assoc]
    constructor
    · intro h
      -- The piece itself, or one of those behind it, which start where it ends.
      have hcases : (Text.isBlank piece = false ∧
          t = ⟨piece, ⟨number, col, number, (col + piece.length : Nat)⟩⟩) ∨
          t ∈ place number (col + piece.length) pieces := by
        rw [place] at h
        split at h
        · exact .inr h
        · rename_i hblank
          exact (List.mem_cons.1 h).imp (⟨Bool.eq_false_iff.2 hblank, ·⟩) id
      rcases hcases with ⟨hblank, rfl⟩ | h
      · exact ⟨[], pieces, rfl, hblank, rfl⟩
      · obtain ⟨front, rest, rfl, hblank, hspan⟩ := ih.1 h
        exact ⟨piece :: front, rest, rfl, hblank, by rw [hshift, hspan]⟩
    · rintro ⟨front, rest, hpieces, hblank, hspan⟩
      cases front with
      | nil =>
        obtain ⟨rfl, rfl⟩ := List.cons.inj hpieces
        rw [place, if_neg (Bool.eq_false_iff.1 hblank)]
        exact List.mem_cons.2 (.inl (by cases t; exact congrArg _ hspan))
      | cons p front =>
        obtain ⟨rfl, rfl⟩ := List.cons.inj hpieces
        have h : t ∈ place number (col + piece.length) (front ++ t.value :: rest) :=
          ih.2 ⟨front, rest, rfl, hblank, by rw [hspan, hshift]⟩
        rw [place]
        split
        · exact h
        · exact List.mem_cons_of_mem _ h

theorem mem_ofLinesFrom {number : Nat} {lines : List Text} {t : Token} :
    t ∈ ofLinesFrom number lines ↔
      ∃ k line, lines[k]? = some line ∧ t ∈ place (number + k) 0 (cut line) := by
  induction lines generalizing number with
  | nil => simp [ofLinesFrom]
  | cons line lines ih =>
    rw [ofLinesFrom, List.mem_append, ih]
    constructor
    · rintro (h | ⟨k, line', hline, h⟩)
      · exact ⟨0, line, rfl, h⟩
      · exact ⟨k + 1, line', hline, by rwa [Nat.add_comm k, ← Nat.add_assoc]⟩
    · rintro ⟨k, line', hline, h⟩
      cases k with
      | zero =>
        cases hline
        exact .inl h
      | succ k => exact .inr ⟨k, line', hline, by rwa [Nat.add_comm k, ← Nat.add_assoc] at h⟩

/-- The tokens are the pieces of the lines that are no white space. -/
theorem mem_ofLines {lines : List Text} {t : Token} : t ∈ ofLines lines ↔
    Text.isBlank t.value = false ∧ ∃ k front rest, IsPiece lines k front t rest := by
  rw [ofLines, mem_ofLinesFrom]
  constructor
  · rintro ⟨k, line, hline, h⟩
    obtain ⟨front, rest, hcut, hblank, hspan⟩ := mem_place.1 h
    refine ⟨hblank, k, front, rest, ⟨line, hline, hcut⟩, ?_⟩
    rw [hspan]
    simp [Int.add_comm]
  · rintro ⟨hblank, k, front, rest, ⟨line, hline, hcut⟩, hspan⟩
    refine ⟨k, line, hline, mem_place.2 ⟨front, rest, hcut, hblank, ?_⟩⟩
    rw [hspan]
    simp [Int.add_comm]

/-- Every token ends before the next one starts. -/
theorem pairwise_place (number col : Nat) (pieces : List Text) :
    (place number col pieces).Pairwise fun a b => a.span.EndsBefore b.span := by
  induction pieces generalizing col with
  | nil => exact .nil
  | cons piece pieces ih =>
    rw [place]
    split
    · exact ih _
    · refine List.pairwise_cons.2 ⟨fun t ht => ?_, ih _⟩
      obtain ⟨front, rest, -, -, hspan⟩ := mem_place.1 ht
      rw [hspan]
      exact .inr ⟨rfl, Int.ofNat_le.2 (Nat.le_add_right _ _)⟩

theorem pairwise_ofLinesFrom (number : Nat) (lines : List Text) :
    (ofLinesFrom number lines).Pairwise fun a b => a.span.EndsBefore b.span := by
  induction lines generalizing number with
  | nil => exact .nil
  | cons line lines ih =>
    rw [ofLinesFrom]
    refine List.pairwise_append.2 ⟨pairwise_place _ _ _, ih _, fun a ha b hb => .inl ?_⟩
    obtain ⟨front, rest, -, -, hspan⟩ := mem_place.1 ha
    obtain ⟨k, line', -, hb⟩ := mem_ofLinesFrom.1 hb
    obtain ⟨front', rest', -, -, hspan'⟩ := mem_place.1 hb
    rw [hspan, hspan']
    simp only
    omega

theorem IsPiece.value_eq {lines : List Text} {k : Nat} {front rest : List Text} {t : Token}
    (h : IsPiece lines k front t rest) : ∃ line, lines[k]? = some line ∧
      t.value = (line.take t.span.endCol.toNat).drop t.span.startCol.toNat := by
  obtain ⟨⟨line, hline, hcut⟩, hspan⟩ := h
  refine ⟨line, hline, ?_⟩
  have hflatten : line = front.flatten ++ t.value ++ rest.flatten := by
    rw [← flatten_cut line, hcut, List.flatten_append, List.flatten_cons, List.append_assoc]
  have hend : t.span.endCol.toNat = (front.flatten ++ t.value).length := by
    rw [hspan, List.length_append]
    rfl
  have hstart : t.span.startCol.toNat = front.flatten.length := by
    rw [hspan]
    rfl
  rw [hend, hstart, hflatten, List.take_left, List.drop_left]

theorem IsPiece.cutBetween {lines : List Text} {k : Nat} {front rest : List Text} {t : Token}
    (h : IsPiece lines k front t rest) : CutBetween front.getLast? t.value rest := by
  obtain ⟨line, -, hcut⟩ := h.line
  have hwell : WellCut none (cut line) := wellCut_cutFrom (Bare.nil line) (by simp)
  rw [hcut] at hwell
  simpa using hwell.cutBetween

theorem ne_nil_of_mem_ofLines {lines : List Text} {t : Token} (h : t ∈ ofLines lines) :
    t.value ≠ [] := by
  intro hnil
  have hblank := (mem_ofLines.1 h).1
  rw [hnil, Text.isBlank_nil] at hblank
  cases hblank

/-- The tokens of source lines, in the order in which they stand there, are the pieces that are
    not white space, of those that the lines are cut into. -/
theorem ofLines_partition (lines : List Text) :
    (ofLines lines).Pairwise
      (fun a b => a.span.startsBefore b.span = true ∧ a.span.EndsBefore b.span) ∧
    (∀ t ∈ ofLines lines, t.value ≠ []) ∧
    (∀ line ∈ lines, (cut line).flatten = line) ∧
    (∀ t, t ∈ ofLines lines ↔
      Text.trim t.value ≠ [] ∧ ∃ k front rest, IsPiece lines k front t rest) ∧
    ∀ k front t rest, IsPiece lines k front t rest →
      (∃ line, lines[k]? = some line ∧
        t.value = (line.take t.span.endCol.toNat).drop t.span.startCol.toNat) ∧
      CutBetween front.getLast? t.value rest := by
  refine ⟨?_, fun t ht => ne_nil_of_mem_ofLines ht, fun line _ => flatten_cut line, ?_, ?_⟩
  · refine (pairwise_ofLinesFrom 1 lines).imp_of_mem fun {a b} ha hb hbefore => ⟨?_, hbefore⟩
    obtain ⟨k, front, rest, hpiece⟩ := (mem_ofLines.1 ha).2
    have hlength : 0 < a.value.length := List.length_pos_iff.2 (ne_nil_of_mem_ofLines ha)
    rw [Span.startsBefore_iff]
    rw [Span.EndsBefore, hpiece.span] at hbefore
    rw [hpiece.span]
    simp only at hbefore ⊢
    omega
  · intro t
    rw [mem_ofLines, Ne, Text.trim_eq_nil_iff, Bool.not_eq_true]
  · intro k front t rest h
    exact ⟨h.value_eq, h.cutBetween⟩

/-- In `x!==3 ` the delimiter `!=` goes before the equals sign, and the blank is dropped. -/
theorem ofLines_partition_overlapping :
    IsPiece ["x!==3 "] 0 ["x"] ⟨"!=", ⟨1, 1, 1, 3⟩⟩ ["", "=", "3", " ", ""] ∧
      CutBetween (some "x") "!=" ["", "=", "3", " ", ""] ∧
      ⟨"!=", ⟨1, 1, 1, 3⟩⟩ ∈ ofLines ["x!==3 "] := by
  have hpiece : IsPiece ["x!==3 "] 0 ["x"] ⟨"!=", ⟨1, 1, 1, 3⟩⟩ ["", "=", "3", " ", ""] :=
    ⟨⟨"x!==3 ", rfl, by decide⟩, by decide⟩
  have htrim : Text.trim "!=" ≠ [] := by decide +kernel
  obtain ⟨-, -, -, hmem, hcut⟩ := ofLines_partition ["x!==3 "]
  exact ⟨hpiece, (hcut _ _ _ _ hpiece).2, (hmem _).2 ⟨htrim, 0, _, _, hpiece⟩⟩

end Token

end Goat
