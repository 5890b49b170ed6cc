import Goat.Proofs.BracketDepth
import Goat.Proofs.Continuation
import Goat.Proofs.Grammar
import Goat.Repl.Pending

/-!
# An entry that is accepted needs no more lines

Whether an entry goes on is told from its bytes, while a program is read from its tokens. Both
follow comments and brackets, and they agree with one exception: inside a comment, the bytes `/*/`
end the comment, but as tokens they are an opening mark and a slash. Without it, an entry is open
after some of its lines if and only if these have a comment that does not end, or more opening
than closing brackets outside comments. An accepted entry has neither.
-/

namespace Goat

/-! ### Following comments and brackets through tokens -/

/-- A comment is open after a token. -/
def commentAfter (inComment : Bool) (value : Text) : Bool :=
  if inComment then value != "*/" else value == "/*"

namespace Token

/-- Right behind the first token stands one that starts with a slash. -/
def slashBehind (t u : Token) : Bool :=
  u.value.head? == some 0x2f && t.span.endLine == u.span.startLine &&
    t.span.endCol == u.span.startCol

/-- Some comment has an opening mark in it with a slash right behind. -/
def overlapFrom (inComment : Bool) : List Token → Bool
  | [] => false
  | t :: rest =>
    (inComment && t.value == "/*" && rest.head?.any t.slashBehind) ||
      overlapFrom (commentAfter inComment t.value) rest

/-- The marks of a comment overlap: there is a `/*/` in it, which ends as if the comment did. -/
def marksOverlap (tokens : List Token) : Bool := overlapFrom false tokens

/-- Every closing mark ends a comment, and no marks overlap. -/
def WellMarked (inComment : Bool) : List Token → Prop
  | [] => True
  | t :: rest =>
    (inComment = false → t.value ≠ "*/") ∧
    (inComment = true → t.value = "/*" → ∀ u ∈ rest.head?, t.slashBehind u = false) ∧
    WellMarked (commentAfter inComment t.value) rest

end Token

/-- What is open after some tokens. -/
structure Nesting where
  inComment : Bool
  depth : Int

namespace Nesting

/-- What is open after one more token. -/
def after (s : Nesting) (value : Text) : Nesting where
  inComment := commentAfter s.inComment value
  depth := if s.inComment then s.depth else s.depth + nestingOf value

/-- What is open after more tokens. -/
def afterAll (s : Nesting) : List Token → Nesting
  | [] => s
  | t :: rest => (s.after t.value).afterAll rest

theorem afterAll_append (s : Nesting) (xs ys : List Token) :
    s.afterAll (xs ++ ys) = (s.afterAll xs).afterAll ys := by
  induction xs generalizing s with
  | nil => rfl
  | cons t xs ih => exact ih _

theorem after_open (depth : Int) : after ⟨false, depth⟩ "/*" = ⟨true, depth⟩ := by
  have hnesting : nestingOf "/*" = 0 := by decide
  simp [after, commentAfter, hnesting]

theorem after_close (depth : Int) : after ⟨true, depth⟩ "*/" = ⟨false, depth⟩ := by
  simp [after, commentAfter]

/-- Nothing but its end changes a comment. -/
theorem after_comment {value : Text} (h : value ≠ "*/") (depth : Int) :
    after ⟨true, depth⟩ value = ⟨true, depth⟩ := by
  simp [after, commentAfter, h]

theorem after_code {value : Text} (h : value ≠ "/*") (depth : Int) :
    after ⟨false, depth⟩ value = ⟨false, depth + nestingOf value⟩ := by
  simp [after, commentAfter, h]

theorem afterAll_comment {inside : List Token} (h : ∀ t ∈ inside, t.value ≠ "*/") (depth : Int) :
    afterAll ⟨true, depth⟩ inside = ⟨true, depth⟩ := by
  induction inside with
  | nil => rfl
  | cons t inside ih =>
    obtain ⟨ht, hinside⟩ := List.forall_mem_cons.1 h
    rw [afterAll, after_comment ht, ih hinside]

/-- The values that open or close something. -/
def landmarks : List Text := "/*" :: "*/" :: brackets

theorem after_of_not_mem {value : Text} (h : value ∉ landmarks) (s : Nesting) :
    s.after value = s := by
  obtain ⟨inComment, depth⟩ := s
  simp only [landmarks, List.mem_cons, not_or] at h
  cases inComment with
  | true => exact after_comment h.2.1 depth
  | false => rw [after_code h.1, nestingOf_of_not_mem h.2.2, Int.add_zero]

end Nesting

namespace Token.WellMarked

variable {xs ys : List Token}

theorem front {inComment : Bool} (h : WellMarked inComment (xs ++ ys)) :
    WellMarked inComment xs := by
  induction xs generalizing inComment with
  | nil => trivial
  | cons t xs ih =>
    rw [List.cons_append] at h
    obtain ⟨hclose, hslash, hrest⟩ := h
    refine ⟨hclose, ?_, ih hrest⟩
    intro hin ht u hu
    apply hslash hin ht u
    rw [List.head?_append, Option.mem_def.1 hu]
    rfl

theorem back {s : Nesting} (h : WellMarked s.inComment (xs ++ ys)) :
    WellMarked (s.afterAll xs).inComment ys := by
  induction xs generalizing s with
  | nil => exact h
  | cons t xs ih => exact @ih (s.after t.value) h.2.2

end Token.WellMarked

/-! ### Leaving out comments -/

/-- What is kept of tokens without comments tells what is open after them. -/
theorem Uncommented.afterAll {tokens kept : List Token} (h : Uncommented tokens kept)
    (depth : Int) :
    Nesting.afterAll ⟨false, depth⟩ tokens = ⟨false, depth + Token.depth kept⟩ := by
  induction h generalizing depth with
  | nil => rw [Nesting.afterAll, Token.depth, Int.add_zero]
  | keep hopen hclose _ ih =>
    rw [Nesting.afterAll, Nesting.after_code hopen, ih, Token.depth, Int.add_assoc]
  | comment hopen hinside hclose _ ih =>
    rw [Nesting.afterAll, hopen, Nesting.after_open, Nesting.afterAll_append,
      Nesting.afterAll_comment hinside, Nesting.afterAll, hclose, Nesting.after_close, ih]

theorem Token.wellMarked_comment {inside rest : List Token}
    (hinside : ∀ t ∈ inside, t.value ≠ "*/")
    (hmarks : Token.overlapFrom true (inside ++ rest) = false)
    (h : Token.overlapFrom true rest = false → Token.WellMarked true rest) :
    Token.WellMarked true (inside ++ rest) := by
  induction inside with
  | nil => exact h hmarks
  | cons t inside ih =>
    obtain ⟨ht, hinside⟩ := List.forall_mem_cons.1 hinside
    have hcomment : commentAfter true t.value = true := by simp [commentAfter, ht]
    rw [List.cons_append] at hmarks ⊢
    rw [Token.overlapFrom, hcomment, Bool.or_eq_false_iff] at hmarks
    refine ⟨by simp, ?_, ?_⟩
    · intro _ hopen u hu
      have hslash := hmarks.1
      rw [Option.mem_def.1 hu] at hslash
      simpa [hopen] using hslash
    · rw [hcomment]
      exact ih hinside hmarks.2

theorem Uncommented.wellMarked {tokens kept : List Token} (h : Uncommented tokens kept)
    (hmarks : Token.overlapFrom false tokens = false) : Token.WellMarked false tokens := by
  induction h with
  | nil => trivial
  | @keep t ts rest hopen hclose _ ih =>
    have hcode : commentAfter false t.value = false := by simp [commentAfter, hopen]
    rw [Token.overlapFrom, hcode, Bool.or_eq_false_iff] at hmarks
    refine ⟨fun _ => hclose, by simp, ?_⟩
    rw [hcode]
    exact ih hmarks.2
  | @comment opener close inside ts rest hopen hinside hclose _ ih =>
    have hcomment : commentAfter false opener.value = true := by simp [commentAfter, hopen]
    have hcode : commentAfter true close.value = false := by simp [commentAfter, hclose]
    rw [Token.overlapFrom, hcomment, Bool.or_eq_false_iff] at hmarks
    refine ⟨fun _ => by rw [hopen]; decide, by simp, ?_⟩
    rw [hcomment]
    apply Token.wellMarked_comment hinside hmarks.2
    intro hrest
    rw [Token.overlapFrom, hcode, Bool.or_eq_false_iff] at hrest
    refine ⟨by simp, ?_, ?_⟩
    · intro _ hmark
      rw [hclose] at hmark
      exact absurd hmark (by decide)
    · rw [hcode]
      exact ih hrest.2

theorem skipComment?_eq_none {tokens : List Token} (h : skipComment? tokens = none) :
    ∀ t ∈ tokens, t.value ≠ "*/" := by
  induction tokens with
  | nil => exact List.forall_mem_nil _
  | cons t rest ih =>
    rw [skipComment?] at h
    split at h
    · cases h
    · rename_i ht
      exact List.forall_mem_cons.2 ⟨ht, ih h⟩

/-- Comments that end can be left out. -/
theorem exists_stripComments_of_afterAll {tokens : List Token} {depth : Int}
    (hmarked : Token.WellMarked false tokens)
    (h : (Nesting.afterAll ⟨false, depth⟩ tokens).inComment = false) :
    ∃ kept, stripComments tokens = .ok kept := by
  fun_induction stripComments tokens generalizing depth with
  | case1 => exact ⟨[], rfl⟩
  | case2 t rest ht hskip =>
    rw [Nesting.afterAll, ht, Nesting.after_open,
      Nesting.afterAll_comment (skipComment?_eq_none hskip)] at h
    cases h
  | case3 t rest ht after hskip ih =>
    obtain ⟨inside, close, hinside, hclose, rfl⟩ := skipComment?_eq_some hskip
    have hpassed : Nesting.afterAll ⟨false, depth⟩ (t :: (inside ++ [close])) = ⟨false, depth⟩ := by
      rw [Nesting.afterAll, ht, Nesting.after_open, Nesting.afterAll_append,
        Nesting.afterAll_comment hinside, Nesting.afterAll, hclose, Nesting.after_close,
        Nesting.afterAll]
    have hsplit : t :: (inside ++ close :: after) = (t :: (inside ++ [close])) ++ after := by simp
    rw [hsplit] at hmarked h
    have hrest := @Token.WellMarked.back _ _ ⟨false, depth⟩ hmarked
    rw [Nesting.afterAll_append, hpassed] at h
    rw [hpassed] at hrest
    exact ih hrest h
  | case4 t rest hopen hclose => exact absurd hclose (hmarked.1 rfl)
  | case5 t rest hopen hclose ih =>
    have hcode : commentAfter false t.value = false := by simp [commentAfter, hopen]
    have hrest := hmarked.2.2
    rw [hcode] at hrest
    rw [Nesting.afterAll, Nesting.after_code hopen] at h
    obtain ⟨kept, hkept⟩ := ih hrest h
    exact ⟨t :: kept, by rw [hkept]; rfl⟩

/-! ### The bytes of a line -/

theorem Text.eq_openMark {a b : UInt8} : [a, b] = ("/*" : Text) ↔ a = 0x2f ∧ b = 0x2a := by
  have hmark : ("/*" : Text) = [0x2f, 0x2a] := by decide
  simp [hmark]

theorem Text.eq_closeMark {a b : UInt8} : [a, b] = ("*/" : Text) ↔ a = 0x2a ∧ b = 0x2f := by
  have hmark : ("*/" : Text) = [0x2a, 0x2f] := by decide
  simp [hmark]

/-- A byte is as deep as the token that it makes alone. -/
theorem nestingOf_singleton (a : UInt8) : nestingOf [a] = Entry.nesting a := by
  have hopeners : ("(" : Text) = [0x28] ∧ ("\x7b" : Text) = [0x7b] ∧ ("[" : Text) = [0x5b] := by
    decide
  have hclosers : (")" : Text) = [0x29] ∧ ("\x7d" : Text) = [0x7d] ∧ ("]" : Text) = [0x5d] := by
    decide
  obtain ⟨hparen, hbrace, hbracket⟩ := hopeners
  obtain ⟨hparen', hbrace', hbracket'⟩ := hclosers
  simp only [nestingOf, closerOf?, isCloser, Entry.nesting, hparen, hbrace, hbracket, hparen',
    hbrace', hbracket', List.cons.injEq, and_true]
  grind

namespace Nesting

/-- More is needed after the rest of an entry. -/
def leavesOpen (s : Nesting) (t : Text) : Bool := Entry.isOpenFrom s.inComment s.depth t

theorem leavesOpen_comment {a : UInt8} {t : Text} (h : a = 0x2a → t.head? ≠ some 0x2f)
    (depth : Int) : leavesOpen ⟨true, depth⟩ (a :: t) = leavesOpen ⟨true, depth⟩ t := by
  cases t with
  | nil => rfl
  | cons b t =>
    have hmark : ¬(a = 0x2a ∧ b = 0x2f) := by
      rintro ⟨ha, rfl⟩
      exact h ha rfl
    simp [leavesOpen, Entry.isOpenFrom, hmark]

theorem leavesOpen_code {a : UInt8} {t : Text} (h : a = 0x2f → t.head? ≠ some 0x2a)
    (depth : Int) :
    leavesOpen ⟨false, depth⟩ (a :: t) = leavesOpen ⟨false, depth + Entry.nesting a⟩ t := by
  cases t with
  | nil => rfl
  | cons b t =>
    have hmark : ¬(a = 0x2f ∧ b = 0x2a) := by
      rintro ⟨ha, rfl⟩
      exact h ha rfl
    simp [leavesOpen, Entry.isOpenFrom, hmark]

/-- A byte that no mark starts at is passed like a token. -/
theorem leavesOpen_cons {a : UInt8} {t : Text} (hopen : a = 0x2f → t.head? ≠ some 0x2a)
    (hclose : a = 0x2a → t.head? ≠ some 0x2f) (s : Nesting) :
    s.leavesOpen (a :: t) = (s.after [a]).leavesOpen t := by
  obtain ⟨inComment, depth⟩ := s
  have hlength (mark : Text) (hmark : mark.length = 2) : [a] ≠ mark := by
    rintro rfl
    cases hmark
  cases inComment with
  | true =>
    rw [after_comment (hlength _ (by decide))]
    exact leavesOpen_comment hclose depth
  | false =>
    rw [after_code (hlength _ (by decide)), nestingOf_singleton]
    exact leavesOpen_code hopen depth

/-- A delimiter of two bytes is passed as a whole, but not a closing mark outside comments, nor
    an opening mark in a comment that a slash follows. -/
theorem leavesOpen_pair {a b : UInt8} (hpair : Token.isPair a b = true) {t : Text} {s : Nesting}
    (hclose : s.inComment = false → [a, b] ≠ ("*/" : Text))
    (hslash : s.inComment = true → [a, b] = ("/*" : Text) → t.head? ≠ some 0x2f) :
    s.leavesOpen (a :: b :: t) = (s.after [a, b]).leavesOpen t := by
  obtain ⟨inComment, depth⟩ := s
  have hcases : [a, b] = ("/*" : Text) ∨ [a, b] = ("*/" : Text) ∨
      [a, b] ∈ (["==", "!=", "<=", ">="] : List Text) := by
    simpa [Token.isPair, Token.pairs] using hpair
  rcases hcases with hmark | hmark | hother
  · obtain ⟨rfl, rfl⟩ := Text.eq_openMark.1 hmark
    cases inComment with
    | true =>
      rw [after_comment (by decide), leavesOpen_comment (by simp),
        leavesOpen_comment (fun _ => hslash rfl hmark)]
    | false =>
      rw [hmark, after_open]
      simp [leavesOpen, Entry.isOpenFrom]
  · obtain ⟨rfl, rfl⟩ := Text.eq_closeMark.1 hmark
    cases inComment with
    | true =>
      rw [hmark, after_close]
      simp [leavesOpen, Entry.isOpenFrom]
    | false => exact absurd hmark (hclose rfl)
  · -- A comparison is passed byte by byte.
    have hplain : ∀ d ∈ (["==", "!=", "<=", ">="] : List Text), d ∉ landmarks ∧
        d.all (fun x => x != 0x2f && x != 0x2a && decide ([x] ∉ landmarks)) = true := by decide
    obtain ⟨hvalue, hbytes⟩ := hplain _ hother
    simp only [List.all_cons, Bool.and_eq_true, bne_iff_ne, decide_eq_true_eq] at hbytes
    obtain ⟨⟨⟨ha, ha'⟩, hamem⟩, ⟨⟨hb, hb'⟩, hbmem⟩, -⟩ := hbytes
    rw [after_of_not_mem hvalue, leavesOpen_cons (fun h => absurd h ha) (fun h => absurd h ha'),
      after_of_not_mem hamem, leavesOpen_cons (fun h => absurd h hb) (fun h => absurd h hb'),
      after_of_not_mem hbmem]

end Nesting

/-! ### The pieces of a line -/

/-- Nothing is opened or closed by white space. -/
theorem Nesting.after_blank {piece : Text} (h : Text.isBlank piece = true) (s : Nesting) :
    s.after piece = s := by
  have hblank : ∀ value ∈ landmarks, Text.isBlank value = false := by decide +kernel
  apply after_of_not_mem
  intro hmem
  rw [hblank piece hmem] at h
  cases h

/-- Nothing is opened or closed by a word. -/
theorem Nesting.after_word {word : Text} (h : ∀ b ∈ word, Token.isSingle b = false) (s : Nesting) :
    s.after word.reverse = s := by
  have hsingle : ∀ value ∈ landmarks, value.any Token.isSingle = true := by decide
  apply after_of_not_mem
  intro hmem
  obtain ⟨b, hb, hb'⟩ := List.any_eq_true.1 (hsingle _ hmem)
  rw [h b (List.mem_reverse.1 hb)] at hb'
  cases hb'

theorem Nesting.leavesOpen_word {a : UInt8} (h : Token.isSingle a = false) (t : Text)
    (s : Nesting) :
    s.leavesOpen (a :: t) = s.leavesOpen t := by
  have hne {b : UInt8} (hb : Token.isSingle b = true) : a ≠ b := by
    rintro rfl
    rw [h] at hb
    cases hb
  have hafter : s.after [a] = s := @after_word [a] (List.forall_mem_singleton.2 h) s
  rw [leavesOpen_cons (fun ha => absurd ha (hne (by decide)))
    (fun ha => absurd ha (hne (by decide))), hafter]

namespace Token

theorem afterAll_place (number col : Nat) (piece : Text) (pieces : List Text) (s : Nesting) :
    s.afterAll (place number col (piece :: pieces)) =
      (s.after piece).afterAll (place number (col + piece.length) pieces) := by
  rw [place]
  split
  · rename_i hblank
    rw [Nesting.after_blank hblank]
  · rfl

theorem WellMarked.place_tail {number col : Nat} {piece : Text} {pieces : List Text}
    {more : List Token} {s : Nesting}
    (h : WellMarked s.inComment (place number col (piece :: pieces) ++ more)) :
    WellMarked (s.after piece).inComment (place number (col + piece.length) pieces ++ more) := by
  rw [place] at h
  split at h
  · rename_i hblank
    rwa [Nesting.after_blank hblank]
  · rw [List.cons_append] at h
    exact h.2.2

/-- A slash that a piece could start with starts a token. -/
theorem exists_place_slash (number col : Nat) (t : Text) :
    ∃ value rest, place number col (cutFrom [] (0x2f :: t)) =
      ⟨0x2f :: value, ⟨number, col, number, (col + (value.length + 1) : Nat)⟩⟩ :: rest := by
  have hcut : ∃ value pieces, cutFrom [] (0x2f :: t) = [] :: (0x2f :: value) :: pieces := by
    cases t with
    | nil => exact ⟨[], [[]], by decide⟩
    | cons b t =>
      rw [cutFrom]
      split
      · exact ⟨_, _, rfl⟩
      · rw [if_pos (by decide)]
        exact ⟨_, _, rfl⟩
  obtain ⟨value, pieces, hcut⟩ := hcut
  have hblank : Text.isBlank (0x2f :: value) = false := by
    rw [Text.isBlank_cons (by decide), Bool.and_eq_false_iff]
    exact .inl (by decide)
  rw [hcut, place, if_pos Text.isBlank_nil, place, hblank]
  exact ⟨value, _, rfl⟩

/-- What a delimiter of two bytes is where comments are marked well. -/
theorem WellMarked.pair {number col : Nat} {a b : UInt8} {rest : Text} {more : List Token}
    {s : Nesting} (hpair : isPair a b = true)
    (h : WellMarked s.inComment (place number col ([a, b] :: cutFrom [] rest) ++ more)) :
    (s.inComment = false → [a, b] ≠ ("*/" : Text)) ∧
    (s.inComment = true → [a, b] = ("/*" : Text) → rest.head? ≠ some 0x2f) := by
  have hblank : ∀ d ∈ pairs, Text.isBlank d = false := by decide +kernel
  rw [place, hblank _ (of_decide_eq_true hpair)] at h
  obtain ⟨hclose, hslash, -⟩ := h
  refine ⟨hclose, ?_⟩
  intro hin hmark hrest
  obtain ⟨t, rfl⟩ : ∃ t, rest = 0x2f :: t := List.head?_eq_some_iff.1 hrest
  obtain ⟨value, tail, hplace⟩ := exists_place_slash number (col + 2) t
  have hbehind := hslash hin hmark
  rw [List.append_eq, show col + [a, b].length = col + 2 from rfl, hplace] at hbehind
  have hslash' := hbehind _ rfl
  simp [slashBehind] at hslash'

end Token

/-- The bytes of a line lead to what its tokens lead to. -/
theorem Nesting.leavesOpen_line {number col : Nat} {more : List Token} {word line tail : Text}
    {s : Nesting} (hword : ∀ b ∈ word, Token.isSingle b = false)
    (htail : ∀ b ∈ tail.head?, b = 0x0a)
    (hmarked : Token.WellMarked s.inComment
      (Token.place number col (Token.cutFrom word line) ++ more)) :
    s.leavesOpen (line ++ tail) =
      (s.afterAll (Token.place number col (Token.cutFrom word line))).leavesOpen tail := by
  have hnil : ∀ b ∈ ([] : Text), Token.isSingle b = false := List.forall_mem_nil _
  have hend {b : UInt8} (hb : b ≠ 0x0a) : tail.head? ≠ some b := by
    intro h
    exact hb (htail b h)
  fun_induction Token.cutFrom word line generalizing col s with
  | case1 word =>
    rw [Token.afterAll_place, after_word hword]
    rfl
  | case2 word a ha =>
    rw [Token.afterAll_place, after_word hword, Token.afterAll_place, Token.afterAll_place,
      after_blank Text.isBlank_nil]
    exact leavesOpen_cons (fun _ => hend (by decide)) (fun _ => hend (by decide)) s
  | case3 word a ha =>
    have ha : Token.isSingle a = false := Bool.eq_false_iff.2 ha
    rw [Token.afterAll_place, after_word (List.forall_mem_cons.2 ⟨ha, hword⟩)]
    exact leavesOpen_word ha tail s
  | case4 word a b rest hpair ih =>
    have hrest := hmarked.place_tail
    rw [after_word hword] at hrest
    obtain ⟨hclose, hslash⟩ := hrest.pair hpair
    have hslash' : s.inComment = true → [a, b] = ("/*" : Text) →
        (rest ++ tail).head? ≠ some 0x2f := by
      intro hin hmark
      cases rest with
      | nil => exact hend (by decide)
      | cons c rest => exact hslash hin hmark
    rw [Token.afterAll_place, after_word hword, Token.afterAll_place, List.cons_append,
      List.cons_append, leavesOpen_pair hpair hclose hslash']
    exact ih hnil hrest.place_tail
  | case5 word a b rest hpair ha ih =>
    have hrest := hmarked.place_tail
    rw [after_word hword] at hrest
    have hopen : a = 0x2f → (b :: rest ++ tail).head? ≠ some 0x2a := by
      rintro rfl ⟨⟩
      exact hpair (by decide)
    have hclose : a = 0x2a → (b :: rest ++ tail).head? ≠ some 0x2f := by
      rintro rfl ⟨⟩
      exact hpair (by decide)
    rw [Token.afterAll_place, after_word hword, Token.afterAll_place, List.cons_append,
      leavesOpen_cons hopen hclose]
    exact ih hnil hrest.place_tail
  | case6 word a b rest hpair ha ih =>
    have ha : Token.isSingle a = false := Bool.eq_false_iff.2 ha
    rw [List.cons_append, leavesOpen_word ha]
    exact ih (List.forall_mem_cons.2 ⟨ha, hword⟩) hmarked

/-! ### Entries -/

theorem Nesting.leavesOpen_lines {number : Nat} {lines : List Text} {s : Nesting}
    (hmarked : Token.WellMarked s.inComment (Token.ofLinesFrom number lines)) :
    s.leavesOpen (Text.intercalate Text.newline lines) =
      (s.afterAll (Token.ofLinesFrom number lines)).leavesOpen [] := by
  have hnil : ∀ b ∈ ([] : Text), Token.isSingle b = false := List.forall_mem_nil _
  fun_induction Text.intercalate Text.newline lines generalizing number s with
  | case1 => rfl
  | case2 line =>
    have htail : ∀ b ∈ ([] : Text).head?, b = 0x0a := by simp
    have hline := leavesOpen_line hnil htail hmarked
    rw [List.append_nil] at hline
    rw [Token.ofLinesFrom, Token.ofLinesFrom, List.append_nil]
    exact hline
  | case3 line rest _ ih =>
    rw [Token.ofLinesFrom] at hmarked ⊢
    rw [List.append_assoc, afterAll_append]
    rw [leavesOpen_line hnil (by rintro b ⟨⟩; rfl) hmarked]
    rw [Text.newline, List.singleton_append, leavesOpen_word (by decide)]
    exact ih hmarked.back

theorem Text.intercalate_lines (t : Text) : Text.intercalate Text.newline (Text.lines t) = t := by
  rw [Text.lines]
  induction t with
  | nil => rfl
  | cons b t ih =>
    obtain ⟨piece, pieces, hpieces⟩ := List.exists_cons_of_ne_nil (Text.splitOn_ne_nil 0x0a t)
    rw [Text.splitOn]
    rw [hpieces] at ih ⊢
    split
    · rename_i hb
      rw [Text.intercalate, ih, hb]
      · rfl
      · simp
    · have hcons : Text.intercalate Text.newline ((b :: piece) :: pieces) =
          b :: Text.intercalate Text.newline (piece :: pieces) := by
        cases pieces <;> rfl
      exact hcons.trans (congrArg (b :: ·) ih)

namespace Entry

/-- An entry is closed if and only if its comments end and no bracket stays open outside them. -/
theorem isOpen_eq_false_iff {lines : List Text}
    (hmarked : Token.WellMarked false (Token.ofLines lines)) :
    isOpen (Text.intercalate Text.newline lines) = false ↔
      ∃ kept, stripComments (Token.ofLines lines) = .ok kept ∧ Token.depth kept ≤ 0 := by
  have hopen : isOpen (Text.intercalate Text.newline lines) =
      (Nesting.afterAll ⟨false, 0⟩ (Token.ofLines lines)).leavesOpen [] :=
    @Nesting.leavesOpen_lines 1 lines ⟨false, 0⟩ hmarked
  rw [hopen]
  constructor
  · intro h
    obtain ⟨hcomment, hdepth⟩ := Bool.or_eq_false_iff.1 h
    obtain ⟨kept, hkept⟩ := exists_stripComments_of_afterAll hmarked hcomment
    refine ⟨kept, hkept, ?_⟩
    rw [(uncommented_stripComments _ hkept).afterAll] at hdepth
    simpa using hdepth
  · rintro ⟨kept, hkept, hdepth⟩
    rw [(uncommented_stripComments _ hkept).afterAll]
    simpa [Nesting.leavesOpen, isOpenFrom] using hdepth

/-- An accepted entry needs no more lines, and after some of its lines more is needed if and only
    if they leave a comment open, or a bracket outside comments. That holds of entries whose marks
    do not overlap in a comment. -/
theorem isOpen_of_compile {source : Text} {c : Compilation} (hcompile : compile source = .ok c)
    (hmarks : Token.marksOverlap (Token.ofSource source) = false) :
    isOpen source = false ∧ ∀ k,
      (isOpen (Text.intercalate Text.newline ((Text.lines source).take k)) = false ↔
        ∃ kept, stripComments (Token.ofLines ((Text.lines source).take k)) = .ok kept ∧
          Token.depth kept ≤ 0) := by
  obtain ⟨kept, hkept, hdepth⟩ := exists_balanced_of_compile hcompile
  have hmarked := (uncommented_stripComments _ hkept).wellMarked hmarks
  constructor
  · have hclosed := (isOpen_eq_false_iff hmarked).2 ⟨kept, hkept, Int.le_of_eq hdepth⟩
    rwa [Text.intercalate_lines] at hclosed
  · intro k
    apply isOpen_eq_false_iff
    rw [Token.ofSource, Token.ofLines, ← List.take_append_drop k (Text.lines source),
      Token.ofLinesFrom_append] at hmarked
    exact hmarked.front

/-- Brackets in comments, opening marks in comments, and a comment and a block over two lines. -/
def commentedSource : Text :=
  "/* \x7b */ Int x = 1 /* /* ( */\nif (x) \x7b /* /*\n\x7d */ x = 0\n\x7d"

theorem isOpen_of_compile_commented :
    ∃ c, compile commentedSource = .ok c ∧
      Token.marksOverlap (Token.ofSource commentedSource) = false ∧
      isOpen commentedSource = false ∧
      (isOpen (Text.intercalate Text.newline ((Text.lines commentedSource).take 2)) = false ↔
        ∃ kept, stripComments (Token.ofLines ((Text.lines commentedSource).take 2)) = .ok kept ∧
          Token.depth kept ≤ 0) := by
  have hcompile : (compile commentedSource).toOption.any (fun _ => true) = true := by
    decide +kernel
  have hmarks : Token.marksOverlap (Token.ofSource commentedSource) = false := by decide +kernel
  obtain ⟨c, hc, -⟩ := exists_ok_of_any hcompile
  obtain ⟨hclosed, hlines⟩ := isOpen_of_compile hc hmarks
  exact ⟨c, hc, hmarks, hclosed, hlines 2⟩

/-- In a comment, an opening mark that a slash follows ends with a closing mark. The entry goes on
    behind it, though it is accepted as it is. -/
theorem isOpen_overlapping_marks :
    (∃ c, compile "/* /*/ \x7b */ print(1)" = .ok c) ∧
      isOpen "/* /*/ \x7b */ print(1)" = true := by
  have hcompile : (compile "/* /*/ \x7b */ print(1)").toOption.any (fun _ => true) = true := by
    decide +kernel
  obtain ⟨c, hc, -⟩ := exists_ok_of_any hcompile
  exact ⟨⟨c, hc⟩, by decide⟩

end Entry

end Goat
