import Goat.Program.Printer
import Goat.Proofs.Spelling

/-!
# The tokens of printed programs

The canonical form of a program is cut into exactly the tokens that spell the
program. What keeps its parts apart are the delimiters: a name or numeral ends at
the delimiter after it, and no two delimiters in a row form a longer one.
-/

namespace Goat

namespace Text

theorem isBlank_nil : isBlank [] = true := by
  simp [isBlank, glyphs]

/-- A byte below 0x80 is a character of its own. -/
theorem isBlank_cons {b : UInt8} (hb : b < 0x80) (rest : Text) :
    isBlank (b :: rest) = (isBlankChar (Char.ofNat b.toNat) && isBlank rest) := by
  have hfirst : decodeFirst (b :: rest) = (some (Char.ofNat b.toNat), 1) := by
    cases rest with
    | nil => simp only [decodeFirst, if_pos hb]
    | cons c rest => simp only [decodeFirst, if_pos hb]
  rw [isBlank, glyphs, hfirst]
  simp [isBlank, Glyph.isBlank]

/-- The white space of ASCII is made of control characters and the blank. -/
theorem le_of_isBlankChar {b : UInt8} (hb : b < 0x80)
    (h : isBlankChar (Char.ofNat b.toNat) = true) : b ≤ 0x20 := by
  have hlow : b.toNat < 0x80 := hb
  have hvalid : (Char.ofNat b.toNat).toNat = b.toNat := by
    rw [Char.ofNat, dif_pos (Or.inl (by omega))]
    rfl
  simp only [isBlankChar, hvalid, Bool.or_eq_true, Bool.and_eq_true, decide_eq_true_eq,
    beq_iff_eq] at h
  change b.toNat ≤ 0x20
  omega

end Text

namespace Token

/-- The values of the tokens of a line that starts with a piece of a word. -/
def valuesFrom (word line : Text) : List Text :=
  (cutFrom word line).filter fun piece => !Text.isBlank piece

theorem values_place (number col : Nat) (pieces : List Text) :
    (place number col pieces).map value = pieces.filter fun piece => !Text.isBlank piece := by
  induction pieces generalizing col with
  | nil => rfl
  | cons piece rest ih =>
    rw [place]
    rw [List.filter_cons]
    cases h : Text.isBlank piece with
    | true => exact ih _
    | false => exact congrArg (piece :: ·) (ih _)

theorem values_ofLinesFrom (number : Nat) (lines : List Text) :
    (ofLinesFrom number lines).map value = lines.flatMap (valuesFrom []) := by
  induction lines generalizing number with
  | nil => rfl
  | cons line rest ih =>
    rw [ofLinesFrom, List.map_append, values_place, ih, List.flatMap_cons]
    rfl

theorem values_ofSource (source : Text) :
    (ofSource source).map value = (Text.lines source).flatMap (valuesFrom []) :=
  values_ofLinesFrom 1 _

/-- The text is empty or starts with a delimiter. -/
def Delimited (t : Text) : Prop := ∀ b ∈ t.head?, isSingle b = true

theorem not_isPair_of_isNamePart {a : UInt8} (h : isNamePart a = true) (b : UInt8) :
    isPair a b = false := by
  rw [isPair, decide_eq_false_iff_not]
  intro hmem
  have hfirst : a ∈ pairs.filterMap List.head? := List.mem_filterMap.2 ⟨[a, b], hmem, rfl⟩
  revert h
  have hall : ∀ x ∈ pairs.filterMap List.head?, isNamePart x = false := by decide +kernel
  simp [hall a hfirst]

theorem not_isSingle_of_isNamePart {a : UInt8} (h : isNamePart a = true) : isSingle a = false := by
  rw [isSingle, decide_eq_false_iff_not]
  intro hmem
  have hall : ∀ x ∈ singles, isNamePart x = false := by decide +kernel
  simp [hall a hmem] at h

theorem cutFrom_namePart {a : UInt8} (h : isNamePart a = true) (word t : Text) :
    cutFrom word (a :: t) = cutFrom (a :: word) t := by
  cases t with
  | nil => simp [cutFrom, not_isSingle_of_isNamePart h]
  | cons b t => simp [cutFrom, not_isSingle_of_isNamePart h, not_isPair_of_isNamePart h]

/-- A delimiter ends the word in front of it. -/
theorem cutFrom_delimited {t : Text} (h : Delimited t) :
    ∃ pieces, ∀ word, cutFrom word t = word.reverse :: pieces := by
  match t, h with
  | [], _ => exact ⟨[], fun word => rfl⟩
  | [a], h =>
    have ha : isSingle a = true := h a rfl
    exact ⟨[[a], []], fun word => by simp [cutFrom, ha]⟩
  | a :: b :: t, h =>
    have ha : isSingle a = true := h a rfl
    by_cases hp : isPair a b = true
    · exact ⟨[a, b] :: cutFrom [] t, fun word => by simp [cutFrom, hp]⟩
    · exact ⟨[a] :: cutFrom [] (b :: t), fun word => by simp [cutFrom, hp, ha]⟩

theorem not_isBlank_of_isNamePart {a : UInt8} (h : isNamePart a = true) (rest : Text) :
    Text.isBlank (a :: rest) = false := by
  have hrange : 0x30 ≤ a.toNat ∧ a.toNat ≤ 0x7a := by
    simp only [isNamePart, isNameStart, Text.isDigit, Bool.or_eq_true, Bool.and_eq_true,
      decide_eq_true_eq, beq_iff_eq, UInt8.le_iff_toNat_le] at h
    rcases h with ((h | h) | rfl) | h
    · exact ⟨Nat.le_trans (by decide) h.1, Nat.le_trans h.2 (by decide)⟩
    · exact ⟨Nat.le_trans (by decide) h.1, h.2⟩
    · decide
    · exact ⟨h.1, Nat.le_trans h.2 (by decide)⟩
  have hlow : a < 0x80 := by
    rw [UInt8.lt_iff_toNat_lt]
    exact Nat.lt_of_le_of_lt hrange.2 (by decide)
  rw [Text.isBlank_cons hlow, Bool.and_eq_false_iff, ← Bool.not_eq_true]
  left
  intro hblank
  have hle : a.toNat ≤ 0x20 := Text.le_of_isBlankChar hlow hblank
  omega

/-- A word that a delimiter follows is a token. -/
theorem valuesFrom_word {word : Text} (hne : word ≠ []) (hword : word.all isNamePart = true)
    {t : Text} (ht : Delimited t) : valuesFrom [] (word ++ t) = word :: valuesFrom [] t := by
  obtain ⟨pieces, hpieces⟩ := cutFrom_delimited ht
  have hcut : ∀ (front rest : Text), rest.all isNamePart = true →
      cutFrom front (rest ++ t) = cutFrom (rest.reverse ++ front) t := by
    intro front rest hrest
    induction rest generalizing front with
    | nil => rfl
    | cons a rest ih =>
      rw [List.all_cons, Bool.and_eq_true] at hrest
      rw [List.cons_append, cutFrom_namePart hrest.1, ih _ hrest.2, List.reverse_cons,
        List.append_assoc]
      rfl
  obtain ⟨a, rest, rfl⟩ := List.exists_cons_of_ne_nil hne
  have ha : isNamePart a = true := by
    rw [List.all_cons, Bool.and_eq_true] at hword
    exact hword.1
  rw [valuesFrom, valuesFrom, hcut [] _ hword, hpieces, hpieces, List.append_nil,
    List.reverse_reverse, List.filter_cons, List.filter_cons, not_isBlank_of_isNamePart ha,
    List.reverse_nil, Text.isBlank_nil]
  rfl

/-- A delimiter that starts no longer one is a token, unless it is white space. -/
theorem valuesFrom_single {a : UInt8} (ha : isSingle a = true) {t : Text}
    (hp : ∀ b ∈ t.head?, isPair a b = false) :
    valuesFrom [] (a :: t) =
      (if Text.isBlank [a] then [] else [[a]]) ++ valuesFrom [] t := by
  have hcut : cutFrom [] (a :: t) = [] :: [a] :: cutFrom [] t := by
    cases t with
    | nil => simp [cutFrom, ha]
    | cons b t => simp [cutFrom, ha, hp b rfl]
  rw [valuesFrom, hcut, List.filter_cons, Text.isBlank_nil, List.filter_cons]
  by_cases hblank : Text.isBlank [a] = true <;> simp [hblank, valuesFrom]

theorem valuesFrom_pair {a b : UInt8} (h : isPair a b = true) (hblank : Text.isBlank [a, b] = false)
    (t : Text) : valuesFrom [] (a :: b :: t) = [a, b] :: valuesFrom [] t := by
  have hcut : cutFrom [] (a :: b :: t) = [] :: [a, b] :: cutFrom [] t := by simp [cutFrom, h]
  rw [valuesFrom, hcut, List.filter_cons, Text.isBlank_nil, List.filter_cons, hblank]
  rfl

/-- The delimiters that start no longer one. -/
def marks : List Text := ["(", ")", "[", "]", ",", "\x7b", "\x7d"]

theorem exists_byte_of_mem_marks {mark : Text} (h : mark ∈ marks) :
    ∃ a, mark = [a] ∧ isSingle a = true ∧ (∀ b, isPair a b = false) ∧ Text.isBlank [a] = false := by
  have hbytes : ∀ mark ∈ marks, ∃ a ∈ [0x28, 0x29, 0x5b, 0x5d, 0x2c, 0x7b, 0x7d],
      mark = [a] ∧ isSingle a = true ∧ a ∉ pairs.filterMap List.head? ∧ a < (0x80 : UInt8) ∧
        Text.isBlankChar (Char.ofNat a.toNat) = false := by decide
  obtain ⟨a, _, hmark, hsingle, hpair, hlow, hblank⟩ := hbytes mark h
  refine ⟨a, hmark, hsingle, fun b => ?_, ?_⟩
  · rw [isPair, decide_eq_false_iff_not]
    exact fun hmem => hpair (List.mem_filterMap.2 ⟨[a, b], hmem, rfl⟩)
  · rw [Text.isBlank_cons hlow, hblank, Bool.false_and]

/-- A mark is a token, whatever follows. -/
theorem valuesFrom_mark {mark : Text} (h : mark ∈ marks) (t : Text) :
    valuesFrom [] (mark ++ t) = mark :: valuesFrom [] t := by
  obtain ⟨a, rfl, hsingle, hpair, hblank⟩ := exists_byte_of_mem_marks h
  rw [List.singleton_append, valuesFrom_single hsingle fun b _ => hpair b, hblank]
  rfl

theorem delimited_mark {mark : Text} (h : mark ∈ marks) (t : Text) : Delimited (mark ++ t) := by
  obtain ⟨a, rfl, hsingle, _⟩ := exists_byte_of_mem_marks h
  intro b hb
  obtain rfl : a = b := by simpa using hb
  exact hsingle

theorem delimited_nil : Delimited [] := by
  intro b hb
  cases hb

theorem delimited_blank (t : Text) : Delimited (" " ++ t) := by
  intro b hb
  cases hb
  decide

theorem isBlank_blank : Text.isBlank " " = true := by
  have hlow : (0x20 : UInt8) < 0x80 := by decide
  exact (Text.isBlank_cons hlow []).trans (by rw [Text.isBlank_nil]; decide)

theorem valuesFrom_blank (t : Text) : valuesFrom [] (" " ++ t) = valuesFrom [] t := by
  have hsingle : isSingle 0x20 = true := by decide
  have hpair : ∀ b ∈ t.head?, isPair 0x20 b = false := by
    intro b _
    rw [isPair, decide_eq_false_iff_not]
    intro hmem
    have hspace : (0x20 : UInt8) ∈ pairs.filterMap List.head? :=
      List.mem_filterMap.2 ⟨[0x20, b], hmem, rfl⟩
    exact absurd hspace (by decide)
  have := valuesFrom_single hsingle hpair
  rwa [show Text.isBlank [0x20] = true from isBlank_blank, if_pos rfl, List.nil_append] at this

/-- The symbols that a blank or a numeral follows. -/
def symbols : List Text := "=" :: "<" :: ">" :: Operator.all.map Operator.symbol

/-- A symbol is a token if neither of the characters that end a longer one follows. -/
theorem valuesFrom_symbol {symbol : Text} (h : symbol ∈ symbols) {t : Text}
    (ht : ∀ b ∈ t.head?, b ≠ 0x3d ∧ b ≠ 0x2a ∧ b ≠ 0x2f) :
    valuesFrom [] (symbol ++ t) = symbol :: valuesFrom [] t := by
  have hbytes : ∀ symbol ∈ symbols,
      (∃ a ∈ symbol, symbol = [a] ∧ isSingle a = true ∧ a < 0x80 ∧
        Text.isBlankChar (Char.ofNat a.toNat) = false) ∨
      (∃ a ∈ symbol, ∃ b ∈ symbol, symbol = [a, b] ∧ isPair a b = true ∧ a < 0x80 ∧
        Text.isBlankChar (Char.ofNat a.toNat) = false) := by decide
  rcases hbytes symbol h with
    ⟨a, _, rfl, hsingle, hlow, hblank⟩ | ⟨a, _, b, _, rfl, hpair, hlow, hblank⟩
  · have hnopair : ∀ b ∈ t.head?, isPair a b = false := by
      intro b hb
      rw [isPair, decide_eq_false_iff_not]
      intro hmem
      have hsecond : ∀ pair ∈ pairs, ∀ c ∈ pair[1]?, c = 0x3d ∨ c = 0x2a ∨ c = 0x2f := by
        decide +kernel
      have := hsecond _ hmem b rfl
      have := ht b hb
      grind
    rw [List.singleton_append, valuesFrom_single hsingle hnopair, Text.isBlank_cons hlow, hblank]
    rfl
  · have : Text.isBlank [a, b] = false := by rw [Text.isBlank_cons hlow, hblank, Bool.false_and]
    exact valuesFrom_pair hpair this t

theorem valuesFrom_symbol_blank {symbol : Text} (h : symbol ∈ symbols) (t : Text) :
    valuesFrom [] (symbol ++ (" " ++ t)) = symbol :: valuesFrom [] t := by
  rw [valuesFrom_symbol h, valuesFrom_blank]
  intro b hb
  cases hb
  decide

theorem symbol_mem_symbols (op : Operator) : op.symbol ∈ symbols := by
  cases op <;> decide

end Token

/-- The text is a word: name parts only, and at least one. -/
def IsWord (t : Text) : Prop := t ≠ [] ∧ t.all isNamePart = true

theorem IsWord.of_isIdentifier {t : Text} (h : isIdentifier t = true) : IsWord t := by
  cases t with
  | nil => cases h
  | cons b rest =>
    rw [isIdentifier, Bool.and_eq_true] at h
    refine ⟨by simp, ?_⟩
    rw [List.all_cons, h.2, Bool.and_true, isNamePart, h.1, Bool.true_or]

theorem IsWord.of_isNumeral {t : Text} (h : isNumeral t = true) : IsWord t := by
  rw [isNumeral, Bool.and_eq_true] at h
  refine ⟨by simpa using h.1, ?_⟩
  rw [List.all_eq_true] at h ⊢
  intro b hb
  rw [isNamePart, h.2 b hb, Bool.or_true]

theorem Text.isDigit_digit {d : Nat} (h : d < 10) : Text.isDigit (Text.digit d) = true := by
  have : ∀ d < 10, Text.isDigit (Text.digit d) = true := by decide
  exact this d h

theorem isNumeral_ofNat (n : Nat) : isNumeral (Text.ofNat n) = true := by
  fun_induction Text.ofNat n with
  | case1 n h => simp [isNumeral, Text.isDigit_digit h]
  | case2 n h ih =>
    rw [isNumeral, Bool.and_eq_true] at ih ⊢
    have hdigit := Text.isDigit_digit (Nat.mod_lt n (by decide : 0 < 10))
    exact ⟨by simp, by simp [List.all_append, ih.2, hdigit]⟩

open Token

mutual

/-- A printed expression in front of a delimiter is cut into the tokens that spell it. -/
theorem Expr.valuesFrom_print (e : Expr) (h : e.Spellable) {t : Text} (ht : Delimited t) :
    valuesFrom [] (e.print ++ t) = e.values ++ valuesFrom [] t := by
  match e, h with
  | .number n span, _ =>
    have hword := IsWord.of_isNumeral (isNumeral_ofNat n)
    exact valuesFrom_word hword.1 hword.2 ht
  | .var name span, h =>
    have hword := IsWord.of_isIdentifier h
    exact valuesFrom_word hword.1 hword.2 ht
  | .list items span, h =>
    simp only [Expr.print, Expr.values, enclosed, Text.join, List.flatten_cons, List.flatten_nil,
      List.append_assoc, List.nil_append]
    rw [valuesFrom_mark (by decide),
      Expr.valuesFrom_printAll items h (delimited_mark (by decide) t), valuesFrom_mark (by decide)]
    simp
  | .element name index span, h =>
    have hword := IsWord.of_isIdentifier h.1
    simp only [Expr.print, Expr.values, enclosed, Text.join, List.flatten_cons, List.flatten_nil,
      List.append_assoc, List.nil_append]
    rw [valuesFrom_word hword.1 hword.2 (delimited_mark (by decide) _), valuesFrom_mark (by decide),
      Expr.valuesFrom_print index h.2 (delimited_mark (by decide) t), valuesFrom_mark (by decide)]
    simp
  | .binary op left right span, h =>
    simp only [Expr.print, Expr.values, enclosed, Text.join, List.flatten_cons, List.flatten_nil,
      List.append_assoc, List.nil_append]
    rw [valuesFrom_mark (by decide), Expr.valuesFrom_print left h.1 (delimited_blank _),
      valuesFrom_blank, valuesFrom_symbol_blank (symbol_mem_symbols op),
      Expr.valuesFrom_print right h.2 (delimited_mark (by decide) t), valuesFrom_mark (by decide)]
    simp

/-- So are printed expressions with commas between them. -/
theorem Expr.valuesFrom_printAll (items : List Expr) (h : Expr.AllSpellable items) {t : Text}
    (ht : Delimited t) :
    valuesFrom [] (Text.intercalate ", " (Expr.printAll items) ++ t) =
      Expr.itemValues items ++ valuesFrom [] t := by
  match items, h with
  | [], _ => rfl
  | [e], h => exact Expr.valuesFrom_print e h.1 ht
  | e :: e' :: rest, h =>
    have hcomma : (", " : Text) = "," ++ " " := rfl
    have ih := Expr.valuesFrom_printAll (e' :: rest) h.2 ht
    simp only [Expr.printAll, hcomma] at ih
    simp only [Expr.printAll, Text.intercalate, Expr.itemValues, List.append_assoc, hcomma]
    rw [Expr.valuesFrom_print e h.1 (delimited_mark (by decide) _), valuesFrom_mark (by decide),
      valuesFrom_blank, ih]
    simp

end

theorem Declaration.valuesFrom_print (d : Declaration) (h : d.Spellable) {t : Text}
    (ht : Delimited t) : valuesFrom [] (d.print ++ t) = d.values ++ valuesFrom [] t := by
  obtain ⟨htype, hargument, hname, hvalue⟩ := h
  have htype := IsWord.of_isIdentifier htype
  have hname := IsWord.of_isIdentifier hname
  have hequals : (" = " : Text) = " " ++ ("=" ++ " ") := rfl
  cases hd : d.argument with
  | none =>
    simp only [Declaration.print, Declaration.values, hd, hequals, Text.join, List.flatten_cons,
      List.flatten_nil, List.append_assoc, List.nil_append]
    rw [valuesFrom_word htype.1 htype.2 (delimited_blank _), valuesFrom_blank,
      valuesFrom_word hname.1 hname.2 (delimited_blank _), valuesFrom_blank,
      valuesFrom_symbol_blank (by decide), Expr.valuesFrom_print d.value hvalue ht]
    simp
  | some token =>
    have hargument := IsWord.of_isNumeral (hargument token hd)
    have hless : Delimited ("<" ++ (token.value ++ (">" ++ (" " ++ (d.name ++ (" " ++ ("=" ++
        (" " ++ (d.value.print ++ t))))))))) := by
      intro b hb
      cases hb
      decide
    have hgreater : Delimited (">" ++ (" " ++ (d.name ++ (" " ++ ("=" ++ (" " ++
        (d.value.print ++ t))))))) := by
      intro b hb
      cases hb
      decide
    -- The numeral after `<` keeps it from being read as part of `<=`.
    have hnumeral : ∀ b ∈ (token.value ++ (">" ++ (" " ++ (d.name ++ (" " ++ ("=" ++ (" " ++
        (d.value.print ++ t)))))))).head?, b ≠ 0x3d ∧ b ≠ 0x2a ∧ b ≠ 0x2f := by
      intro b hb
      have hpart : isNamePart b = true := by
        obtain ⟨a, rest, hvalue⟩ := List.exists_cons_of_ne_nil hargument.1
        rw [hvalue] at hb
        obtain rfl : a = b := by simpa using hb
        have := hargument.2
        rw [hvalue, List.all_cons, Bool.and_eq_true] at this
        exact this.1
      refine ⟨?_, ?_, ?_⟩ <;> rintro rfl <;> exact absurd hpart (by decide)
    simp only [Declaration.print, Declaration.values, hd, hequals, Text.join, List.flatten_cons,
      List.flatten_nil, List.append_assoc, List.nil_append]
    rw [valuesFrom_word htype.1 htype.2 hless, valuesFrom_symbol (by decide) hnumeral,
      valuesFrom_word hargument.1 hargument.2 hgreater, valuesFrom_symbol_blank (by decide),
      valuesFrom_word hname.1 hname.2 (delimited_blank _), valuesFrom_blank,
      valuesFrom_symbol_blank (by decide), Expr.valuesFrom_print d.value hvalue ht]
    simp

theorem Assignment.valuesFrom_print (a : Assignment) (h : a.Spellable) {t : Text}
    (ht : Delimited t) : valuesFrom [] (a.print ++ t) = a.values ++ valuesFrom [] t := by
  obtain ⟨hname, hindex, hvalue⟩ := h
  have hname := IsWord.of_isIdentifier hname
  have hequals : (" = " : Text) = " " ++ ("=" ++ " ") := rfl
  cases ha : a.index with
  | none =>
    simp only [Assignment.print, Assignment.values, ha, hequals, Text.join, List.flatten_cons,
      List.flatten_nil, List.append_assoc, List.nil_append]
    rw [valuesFrom_word hname.1 hname.2 (delimited_blank _), valuesFrom_blank,
      valuesFrom_symbol_blank (by decide), Expr.valuesFrom_print a.value hvalue ht]
    simp
  | some index =>
    simp only [Assignment.print, Assignment.values, ha, hequals, enclosed, Text.join,
      List.flatten_cons, List.flatten_nil, List.append_assoc, List.nil_append]
    rw [valuesFrom_word hname.1 hname.2 (delimited_mark (by decide) _), valuesFrom_mark (by decide),
      Expr.valuesFrom_print index (hindex index ha) (delimited_mark (by decide) _),
      valuesFrom_mark (by decide), valuesFrom_blank, valuesFrom_symbol_blank (by decide),
      Expr.valuesFrom_print a.value hvalue ht]
    simp

mutual

/-- A printed statement in front of a delimiter is cut into the tokens that spell it. -/
theorem Stmt.valuesFrom_print (s : Stmt) (h : s.Spellable) {t : Text} (ht : Delimited t) :
    valuesFrom [] (s.print ++ t) = s.values ++ valuesFrom [] t := by
  match s, h with
  | .declaration d, h => exact d.valuesFrom_print h ht
  | .assignment a, h => exact a.valuesFrom_print h ht
  | .call name arguments blocks span, h =>
    have hname := IsWord.of_isIdentifier h.1
    simp only [Stmt.print, Stmt.values, enclosed, Text.join, List.flatten_cons, List.flatten_nil,
      List.append_assoc, List.nil_append]
    rw [valuesFrom_word hname.1 hname.2 (delimited_mark (by decide) _), valuesFrom_mark (by decide),
      Expr.valuesFrom_printAll arguments h.2.1 (delimited_mark (by decide) _),
      valuesFrom_mark (by decide), Block.valuesFrom_printAll blocks h.2.2 ht]
    simp

/-- So are the printed blocks of a call. -/
theorem Block.valuesFrom_printAll (blocks : List Block) (h : Block.AllSpellable blocks) {t : Text}
    (ht : Delimited t) :
    valuesFrom [] (Block.printAll blocks ++ t) = Block.allValues blocks ++ valuesFrom [] t := by
  match blocks, h with
  | [], _ => rfl
  | .mk name body span :: rest, h =>
    have hbody := Stmt.valuesFrom_printAll body h.2.1
      (t := " " ++ ("\x7d" ++ (Block.printAll rest ++ t))) (delimited_blank _)
    have hrest := Block.valuesFrom_printAll rest h.2.2 ht
    have hclose : (" \x7d" : Text) = " " ++ "\x7d" := rfl
    have hinside : valuesFrom [] ("\x7b" ++ (Stmt.printAll body ++ (" " ++ ("\x7d" ++
        (Block.printAll rest ++ t))))) = enclosed "\x7b" (Stmt.allValues body) "\x7d" ++
          (Block.allValues rest ++ valuesFrom [] t) := by
      rw [valuesFrom_mark (by decide), hbody, valuesFrom_blank, valuesFrom_mark (by decide), hrest]
      simp [enclosed]
    by_cases hname : name = Block.defaultName
    · simp only [Block.printAll, Block.allValues, Block.labelValues, hname, hclose, if_true,
        Text.join, List.flatten_cons, List.flatten_nil, List.append_assoc, List.nil_append]
      rw [valuesFrom_blank, hinside]
    · have hword := IsWord.of_isIdentifier h.1
      simp only [Block.printAll, Block.allValues, Block.labelValues, hname, hclose, if_false,
        Text.join, List.flatten_cons, List.flatten_nil, List.append_assoc, List.nil_append]
      rw [valuesFrom_blank, valuesFrom_word hword.1 hword.2 (delimited_blank _), valuesFrom_blank,
        hinside]
      rfl

/-- So are the printed statements of a block. -/
theorem Stmt.valuesFrom_printAll (stmts : List Stmt) (h : Stmt.AllSpellable stmts) {t : Text}
    (ht : Delimited t) :
    valuesFrom [] (Stmt.printAll stmts ++ t) = Stmt.allValues stmts ++ valuesFrom [] t := by
  match stmts, h with
  | [], _ => rfl
  | s :: rest, h =>
    have hrest := Stmt.valuesFrom_printAll rest h.2 ht
    have hdelimited : Delimited (Stmt.printAll rest ++ t) := by
      cases rest with
      | nil => exact ht
      | cons s' rest =>
        simp only [Stmt.printAll, Text.join, List.flatten_cons, List.append_assoc]
        exact delimited_blank _
    simp only [Stmt.printAll, Stmt.allValues, Text.join, List.flatten_cons, List.flatten_nil,
      List.append_assoc, List.nil_append]
    rw [valuesFrom_blank, Stmt.valuesFrom_print s h.1 hdelimited, hrest]

end

/-- The text stays on one line. -/
def OneLine (t : Text) : Prop := 0x0a ∉ t

instance (t : Text) : Decidable (OneLine t) := inferInstanceAs (Decidable (0x0a ∉ t))

theorem OneLine.of_isWord {t : Text} (h : IsWord t) : OneLine t := by
  intro hmem
  have := List.all_eq_true.1 h.2 _ hmem
  exact absurd this (by decide)

theorem OneLine.append {t u : Text} (ht : OneLine t) (hu : OneLine u) : OneLine (t ++ u) := by
  intro hmem
  exact (List.mem_append.1 hmem).elim ht hu

theorem OneLine.join {parts : List Text} (h : ∀ part ∈ parts, OneLine part) :
    OneLine (Text.join parts) := by
  intro hmem
  obtain ⟨part, hpart, hmem⟩ := List.mem_flatten.1 hmem
  exact h part hpart hmem

theorem OneLine.intercalate {separator : Text} (hs : OneLine separator) {parts : List Text}
    (h : ∀ part ∈ parts, OneLine part) : OneLine (Text.intercalate separator parts) := by
  fun_induction Text.intercalate separator parts with
  | case1 => exact List.not_mem_nil
  | case2 part => exact h part (by simp)
  | case3 part rest hne ih =>
    have hrest := ih fun part hpart => h part (by simp [hpart])
    exact ((h part (by simp)).append hs).append hrest

theorem oneLine_symbol (op : Operator) : OneLine op.symbol := by
  cases op <;> decide

mutual

theorem Expr.oneLine_print (e : Expr) (h : e.Spellable) : OneLine e.print := by
  match e, h with
  | .number n span, _ => exact .of_isWord (.of_isNumeral (isNumeral_ofNat n))
  | .var name span, h => exact .of_isWord (.of_isIdentifier h)
  | .list items span, h =>
    have hcomma : OneLine ", " := by decide
    have hitems := hcomma.intercalate (Expr.oneLine_printAll items h)
    refine .join ?_
    simp only [List.forall_mem_cons]
    exact ⟨by decide, hitems, by decide, by simp⟩
  | .element name index span, h =>
    have hname := OneLine.of_isWord (.of_isIdentifier h.1)
    refine .join ?_
    simp only [List.forall_mem_cons]
    exact ⟨hname, by decide, Expr.oneLine_print index h.2, by decide, by simp⟩
  | .binary op left right span, h =>
    refine .join ?_
    simp only [List.forall_mem_cons]
    exact ⟨by decide, Expr.oneLine_print left h.1, by decide, oneLine_symbol op, by decide,
      Expr.oneLine_print right h.2, by decide, by simp⟩

theorem Expr.oneLine_printAll (items : List Expr) (h : Expr.AllSpellable items) :
    ∀ part ∈ Expr.printAll items, OneLine part := by
  match items, h with
  | [], _ => simp [Expr.printAll]
  | e :: rest, h =>
    intro part hpart
    rcases List.mem_cons.1 hpart with rfl | hpart
    · exact Expr.oneLine_print e h.1
    · exact Expr.oneLine_printAll rest h.2 part hpart

end

theorem Declaration.oneLine_print (d : Declaration) (h : d.Spellable) : OneLine d.print := by
  obtain ⟨htype, hargument, hname, hvalue⟩ := h
  refine .join ?_
  simp only [List.forall_mem_cons]
  refine ⟨.of_isWord (.of_isIdentifier htype), ?_, by decide, .of_isWord (.of_isIdentifier hname),
    by decide, d.value.oneLine_print hvalue, by simp⟩
  split
  · rename_i token hd
    refine .join ?_
    simp only [List.forall_mem_cons]
    exact ⟨by decide, .of_isWord (.of_isNumeral (hargument token hd)), by decide, by simp⟩
  · decide

theorem Assignment.oneLine_print (a : Assignment) (h : a.Spellable) : OneLine a.print := by
  obtain ⟨hname, hindex, hvalue⟩ := h
  refine .join ?_
  simp only [List.forall_mem_cons]
  refine ⟨.of_isWord (.of_isIdentifier hname), ?_, by decide, a.value.oneLine_print hvalue, by simp⟩
  split
  · rename_i index ha
    refine .join ?_
    simp only [List.forall_mem_cons]
    exact ⟨by decide, index.oneLine_print (hindex index ha), by decide, by simp⟩
  · decide

mutual

theorem Stmt.oneLine_print (s : Stmt) (h : s.Spellable) : OneLine s.print := by
  match s, h with
  | .declaration d, h => exact d.oneLine_print h
  | .assignment a, h => exact a.oneLine_print h
  | .call name arguments blocks span, h =>
    have hcomma : OneLine ", " := by decide
    have harguments := hcomma.intercalate (Expr.oneLine_printAll arguments h.2.1)
    refine .join ?_
    simp only [List.forall_mem_cons]
    exact ⟨.of_isWord (.of_isIdentifier h.1), by decide, harguments, by decide,
      Block.oneLine_printAll blocks h.2.2, by simp⟩

theorem Block.oneLine_printAll (blocks : List Block) (h : Block.AllSpellable blocks) :
    OneLine (Block.printAll blocks) := by
  match blocks, h with
  | [], _ => exact List.not_mem_nil
  | .mk name body span :: rest, h =>
    refine .join ?_
    simp only [List.forall_mem_cons]
    refine ⟨by decide, ?_, by decide, Stmt.oneLine_printAll body h.2.1, by decide,
      Block.oneLine_printAll rest h.2.2, by simp⟩
    split
    · decide
    · refine .join ?_
      simp only [List.forall_mem_cons]
      exact ⟨.of_isWord (.of_isIdentifier h.1), by decide, by simp⟩

theorem Stmt.oneLine_printAll (stmts : List Stmt) (h : Stmt.AllSpellable stmts) :
    OneLine (Stmt.printAll stmts) := by
  match stmts, h with
  | [], _ => exact List.not_mem_nil
  | s :: rest, h =>
    refine .join ?_
    simp only [List.forall_mem_cons]
    exact ⟨by decide, Stmt.oneLine_print s h.1, Stmt.oneLine_printAll rest h.2, by simp⟩

end

/-- A text without the separator is a piece of its own. -/
theorem Text.splitOn_of_not_mem {separator : UInt8} {t : Text} (h : separator ∉ t) :
    Text.splitOn separator t = [t] := by
  induction t with
  | nil => rfl
  | cons b t ih =>
    rw [List.mem_cons, not_or] at h
    rw [Text.splitOn, if_neg (Ne.symm h.1), ih h.2]

theorem Text.splitOn_ne_nil (separator : UInt8) (t : Text) : Text.splitOn separator t ≠ [] := by
  cases t with
  | nil => simp [Text.splitOn]
  | cons b t =>
    rw [Text.splitOn]
    split
    · simp
    · split <;> simp

theorem Text.splitOn_append (separator : UInt8) (t rest : Text) :
    Text.splitOn separator (t ++ separator :: rest) =
      Text.splitOn separator t ++ Text.splitOn separator rest := by
  induction t with
  | nil => simp [Text.splitOn]
  | cons b t ih =>
    rw [List.cons_append, Text.splitOn, Text.splitOn]
    split
    · rw [ih]
      rfl
    · obtain ⟨piece, pieces, hpieces⟩ :=
        List.exists_cons_of_ne_nil (Text.splitOn_ne_nil separator t)
      rw [ih, hpieces]
      rfl

theorem Text.splitOn_append_cons {separator : UInt8} {t : Text} (h : separator ∉ t) (rest : Text) :
    Text.splitOn separator (t ++ separator :: rest) = t :: Text.splitOn separator rest := by
  rw [Text.splitOn_append, Text.splitOn_of_not_mem h, List.singleton_append]

/-- Texts of one line each, with line breaks between them, are the lines they make. -/
theorem Text.lines_intercalate {parts : List Text} (hne : parts ≠ [])
    (h : ∀ part ∈ parts, OneLine part) :
    Text.lines (Text.intercalate Text.newline parts) = parts := by
  fun_induction Text.intercalate Text.newline parts with
  | case1 => exact absurd rfl hne
  | case2 part => exact Text.splitOn_of_not_mem (h part (by simp))
  | case3 part rest hrest ih =>
    have hlines := ih (by simpa using hrest) fun part hpart => h part (by simp [hpart])
    rw [Text.lines, Text.newline, List.append_assoc, List.singleton_append,
      Text.splitOn_append_cons (h part (by simp))]
    exact congrArg (part :: ·) hlines

theorem Stmt.flatMap_valuesFrom_print (stmts : List Stmt) (h : Stmt.AllSpellable stmts) :
    (stmts.map Stmt.print).flatMap (valuesFrom []) = Stmt.allValues stmts := by
  match stmts, h with
  | [], _ => rfl
  | s :: rest, h =>
    have hs := s.valuesFrom_print h.1 delimited_nil
    have hnil : valuesFrom [] [] = [] := by simp [valuesFrom, cutFrom, Text.isBlank_nil]
    rw [List.append_nil, hnil, List.append_nil] at hs
    rw [List.map_cons, List.flatMap_cons, hs, Stmt.flatMap_valuesFrom_print rest h.2,
      Stmt.allValues]

theorem Stmt.oneLine_of_mem_map_print (stmts : List Stmt) (h : Stmt.AllSpellable stmts) :
    ∀ part ∈ stmts.map Stmt.print, OneLine part := by
  match stmts, h with
  | [], _ => simp
  | s :: rest, h =>
    rw [List.map_cons, List.forall_mem_cons]
    exact ⟨s.oneLine_print h.1, Stmt.oneLine_of_mem_map_print rest h.2⟩

/-- The tokens of a printed program are those that spell it. -/
theorem Program.values_print (p : Program) (h : p.Spellable) :
    (Token.ofSource p.print).map Token.value = Stmt.allValues p.statements := by
  rw [values_ofSource, Program.print]
  by_cases hne : p.statements = []
  · rw [hne]
    simp [Text.intercalate, Text.lines, Text.splitOn, valuesFrom, cutFrom, Text.isBlank_nil,
      Stmt.allValues]
  · rw [Text.lines_intercalate (by simpa using hne) (Stmt.oneLine_of_mem_map_print _ h),
      Stmt.flatMap_valuesFrom_print _ h]

end Goat
