import Goat.Proofs.Brackets
import Goat.Proofs.Reading

/-!
# Reading undoes printing

The tokens that spell a program are read as that program. Every statement ends
where its tokens end: an expression goes on only at an opening square bracket and a
call only at an opening brace, and no statement starts with either.
-/

namespace Goat

/-- A word is not a text with other characters in it. -/
theorem IsWord.ne {v w : Text} (hv : IsWord v) (hw : w.all isNamePart = false) : v ≠ w := by
  rintro rfl
  rw [hv.2] at hw
  cases hw

theorem IsWord.isInner {v : Text} (hv : IsWord v) : IsInner v := by
  have hclosers : v ≠ ")" ∧ v ≠ "\x7d" ∧ v ≠ "]" :=
    ⟨hv.ne (by decide), hv.ne (by decide), hv.ne (by decide)⟩
  refine ⟨?_, ?_, hv.ne (by decide), hv.ne (by decide)⟩
  · rw [closerOf?, if_neg (hv.ne (by decide)), if_neg (hv.ne (by decide)),
      if_neg (hv.ne (by decide))]
  · simp [isCloser, hclosers]

theorem isNumeral_of_isIdentifier {t : Text} (h : isIdentifier t = true) : isNumeral t = false := by
  cases t with
  | nil => cases h
  | cons b rest =>
    rw [isIdentifier, Bool.and_eq_true] at h
    have hdigit : Text.isDigit b = false := by
      have hstart := h.1
      simp only [isNameStart, Bool.or_eq_true, Bool.and_eq_true, decide_eq_true_eq, beq_iff_eq,
        UInt8.le_iff_toNat_le, ← UInt8.toNat_inj] at hstart
      simp only [Text.isDigit, Bool.and_eq_false_iff, decide_eq_false_iff_not,
        UInt8.le_iff_toNat_le]
      rcases hstart with (h | h) | h
      · exact .inr fun hle => absurd (Nat.le_trans h.1 hle) (by decide)
      · exact .inr fun hle => absurd (Nat.le_trans h.1 hle) (by decide)
      · exact .inr fun hle => absurd (h ▸ hle) (by decide)
    simp [isNumeral, hdigit]

theorem Text.readDigits_append {t : Text} {acc n : Nat} (h : Text.readDigits acc t = some n)
    (u : Text) : Text.readDigits acc (t ++ u) = Text.readDigits n u := by
  induction t generalizing acc with
  | nil =>
    cases h
    rfl
  | cons b t ih =>
    rw [Text.readDigits] at h
    rw [List.cons_append, Text.readDigits]
    split at h
    · rename_i hb
      rw [if_pos hb]
      exact ih h
    · cases h

theorem Text.readDigits_digit (acc : Nat) {d : Nat} (h : d < 10) :
    Text.readDigits acc [Text.digit d] = some (acc * 10 + d) := by
  have hvalue : ∀ d < 10, (Text.digit d).toNat - 0x30 = d := by decide
  rw [Text.readDigits, if_pos (Text.isDigit_digit h), Text.readDigits, hvalue d h]

theorem Text.readDigits_ofNat (n : Nat) : Text.readDigits 0 (Text.ofNat n) = some n := by
  fun_induction Text.ofNat n with
  | case1 n h => rw [Text.readDigits_digit 0 h, Nat.zero_mul, Nat.zero_add]
  | case2 n h ih =>
    rw [Text.readDigits_append ih, Text.readDigits_digit _ (Nat.mod_lt n (by decide))]
    congr 1
    omega

theorem readNumber_ofNat {t : Token} {n : Nat} (ht : t.value = Text.ofNat n)
    (hn : n < 0x8000000000000000) : readNumber t = .ok n := by
  have hne := (IsWord.of_isNumeral (isNumeral_ofNat n)).1
  have hvalue : Text.toNat? t.value = some n := by
    rw [ht]
    cases hdigits : Text.ofNat n with
    | nil => exact absurd hdigits hne
    | cons b rest => rw [Text.toNat?, ← hdigits, Text.readDigits_ofNat]; simp
  rw [readNumber, hvalue]
  simp only [hn, if_true]

theorem Operator.ofSymbol?_symbol (op : Operator) : Operator.ofSymbol? op.symbol = some op := by
  cases op <;> decide

theorem isInner_symbol (op : Operator) : IsInner op.symbol := by
  cases op <;> decide

/-- The value stands in no list item of its own: it is not a comma. -/
def NotComma (value : Text) : Prop := value ≠ ","

theorem Nested.word {v : Text} (hv : IsWord v) : Nested NotComma [v] :=
  .singleton hv.isInner (hv.ne (by decide))

theorem nested_operands (op : Operator) {ls rs : List Text} (hl : Nested NotComma ls)
    (hr : Nested NotComma rs) : Nested (fun _ => True) (ls ++ op.symbol :: rs) :=
  (hl.mono fun _ _ => trivial).append
    (.inner (isInner_symbol op) trivial (hr.mono fun _ _ => trivial))

mutual

/-- The brackets of an expression match, and its commas stand in brackets. -/
theorem Expr.nested_values (e : Expr) (h : e.Spellable) : Nested NotComma e.values := by
  match e, h with
  | .number n span, _ => exact .word (.of_isNumeral (isNumeral_ofNat n))
  | .var name span, h => exact .word (.of_isIdentifier h)
  | .list items span, h => exact .of_group (by decide) (Expr.nested_itemValues items h)
  | .element name index span, h =>
    have hindex := (Expr.nested_values index h.2).mono fun _ _ => trivial
    exact (Nested.word (.of_isIdentifier h.1)).append (.of_group (by decide) hindex)
  | .binary op left right span, h =>
    have hinside := nested_operands op (Expr.nested_values left h.1) (Expr.nested_values right h.2)
    exact .of_group (by decide) hinside

theorem Expr.nested_itemValues (items : List Expr) (h : Expr.AllSpellable items) :
    Nested (fun _ => True) (Expr.itemValues items) := by
  match items, h with
  | [], _ => exact .nil
  | [e], h => exact (Expr.nested_values e h.1).mono fun _ _ => trivial
  | e :: e' :: rest, h =>
    have he := (Expr.nested_values e h.1).mono (Q := fun _ => True) fun _ _ => trivial
    have hrest := Expr.nested_itemValues (e' :: rest) h.2
    rw [Expr.itemValues]
    · exact he.append (.inner (by decide) trivial hrest)
    · simp

end

/-- An expression starts with a word or an opening bracket. -/
theorem Expr.exists_values_cons (e : Expr) (h : e.Spellable) :
    ∃ v vs, e.values = v :: vs ∧ v ≠ "=" := by
  cases e with
  | number n span =>
    exact ⟨_, _, rfl, (IsWord.of_isNumeral (isNumeral_ofNat n)).ne (by decide)⟩
  | var name span => exact ⟨_, _, rfl, (IsWord.of_isIdentifier h).ne (by decide)⟩
  | list items span => exact ⟨_, _, rfl, by decide⟩
  | element name index span => exact ⟨_, _, rfl, (IsWord.of_isIdentifier h.1).ne (by decide)⟩
  | binary op left right span => exact ⟨_, _, rfl, by decide⟩

/-- The tokens of an expression are one operand. -/
theorem Expr.operandsFrom_values (e : Expr) (h : e.Spellable) {tokens : List Token}
    (hs : Spells tokens e.values) (rest : List Token) (hrest : opensIndex rest = false) :
    operandsFrom 0 [] (tokens ++ rest) = tokens :: operandsFrom 0 [] rest := by
  have hword : ∀ t : Token, IsWord t.value →
      operandsFrom 0 [] (t :: rest) = [t] :: operandsFrom 0 [] rest := by
    intro t ht
    have hbracket : ¬(t.value = "(" ∨ t.value = "[") := by
      rintro (heq | heq) <;> exact ht.ne (by decide) heq
    rw [operandsFrom, if_pos rfl, if_neg hbracket, hrest, Bool.and_false, if_neg (by decide)]
    rfl
  cases e with
  | number n span =>
    obtain ⟨t, ts, rfl, ht, hs⟩ := hs.exists_cons
    cases hs.eq_nil
    exact hword t (ht ▸ .of_isNumeral (isNumeral_ofNat n))
  | var name span =>
    obtain ⟨t, ts, rfl, ht, hs⟩ := hs.exists_cons
    cases hs.eq_nil
    exact hword t (ht ▸ .of_isIdentifier h)
  | list items span =>
    obtain ⟨opener, within, close, rfl, ho, hwithin, hc⟩ := hs.exists_group
    have hpair : closerOf? opener.value = some close.value := by rw [ho, hc]; decide
    have := operandsFrom_group (Expr.nested_itemValues items h) hwithin (.inr ho) hpair [] rest
    simpa using this
  | element name index span =>
    obtain ⟨t, ts, rfl, ht, hs⟩ := hs.exists_cons
    obtain ⟨opener, within, close, rfl, ho, hwithin, hc⟩ := hs.exists_group
    have hpair : closerOf? opener.value = some close.value := by rw [ho, hc]; decide
    have hname : IsWord t.value := ht ▸ .of_isIdentifier h.1
    have hbracket : ¬(t.value = "(" ∨ t.value = "[") := by
      rintro (heq | heq) <;> exact hname.ne (by decide) heq
    have hopens : opensIndex (opener :: (within ++ close :: rest)) = true := by
      simp [opensIndex, ho]
    have := operandsFrom_group (Expr.nested_values index h.2) hwithin (.inr ho) hpair [t] rest
    simp only [List.cons_append, List.append_assoc, List.nil_append]
    rw [operandsFrom, if_pos rfl, if_neg hbracket, hopens, ht, h.1, Bool.and_self, if_pos rfl,
      this]
    simp
  | binary op left right span =>
    have hinside := nested_operands op (Expr.nested_values left h.1) (Expr.nested_values right h.2)
    obtain ⟨opener, within, close, rfl, ho, hwithin, hc⟩ := hs.exists_group
    have hpair : closerOf? opener.value = some close.value := by rw [ho, hc]; decide
    have := operandsFrom_group hinside hwithin (.inl ho) hpair [] rest
    simpa using this

/-- Two operands and the operator between them are three operands. -/
theorem operands_binary {op : Operator} {left right : Expr} (hl : left.Spellable)
    (hr : right.Spellable) {ts : List Token}
    (hs : Spells ts (left.values ++ op.symbol :: right.values)) :
    ∃ l t r, operands ts = [l, [t], r] ∧ Spells l left.values ∧ t.value = op.symbol ∧
      Spells r right.values := by
  obtain ⟨l, ts, rfl, hleft, hs⟩ := hs.exists_append
  obtain ⟨t, r, rfl, ht, hright⟩ := hs.exists_cons
  have hsymbol : ∀ op : Operator, op.symbol ≠ "(" ∧ op.symbol ≠ "[" ∧
      isIdentifier op.symbol = false := by
    intro op
    cases op <;> decide
  obtain ⟨hparen, hbracket, hident⟩ := hsymbol op
  have hnot : ¬(t.value = "(" ∨ t.value = "[") := by
    rw [ht]
    rintro (heq | heq)
    · exact hparen heq
    · exact hbracket heq
  have hopens : opensIndex (t :: r) = false := by simp [opensIndex, ht, hbracket]
  have hrest := right.operandsFrom_values hr hright [] rfl
  rw [List.append_nil] at hrest
  refine ⟨l, t, r, ?_, hleft, ht, hright⟩
  rw [operands, left.operandsFrom_values hl hleft _ hopens, operandsFrom, if_pos rfl, if_neg hnot,
    ht, hident, Bool.false_and, if_neg (by decide), hrest]
  rfl

theorem Expr.readWhole_of_read {ts : List Token} {e : Expr} {last : Token}
    (h : Expr.read ts = .ok (some ⟨e, last, []⟩)) : Expr.readWhole ts = .ok e := by
  rw [Expr.readWhole, h]
  rfl

theorem Expr.readIndex_of_read (opener close : Token) {ts : List Token} (hne : ts ≠ []) {e : Expr}
    {last : Token} (h : Expr.read ts = .ok (some ⟨e, last, []⟩)) :
    Expr.readIndex opener close ts = .ok e := by
  obtain ⟨t, rest, rfl⟩ := List.exists_cons_of_ne_nil hne
  rw [Expr.readIndex, h]
  rfl

theorem Expr.read_number {t : Token} {n : Nat} (ht : isNumeral t.value = true)
    (hn : readNumber t = .ok n) (rest : List Token) :
    Expr.read (t :: rest) = .ok (some ⟨.number n t.span, t, rest⟩) := by
  have hword := IsWord.of_isNumeral ht
  rw [Expr.read_cons, if_neg (hword.ne (by decide)), if_neg (hword.ne (by decide)), if_pos ht, hn]
  rfl

theorem Expr.read_var {t : Token} (ht : isIdentifier t.value = true) {rest : List Token}
    (hrest : opensIndex rest = false) :
    Expr.read (t :: rest) = .ok (some ⟨.var t.value t.span, t, rest⟩) := by
  have hword := IsWord.of_isIdentifier ht
  rw [Expr.read_cons, if_neg (hword.ne (by decide)), if_neg (hword.ne (by decide)),
    isNumeral_of_isIdentifier ht, if_neg (by decide), if_pos ht]
  cases rest with
  | nil => rfl
  | cons opener more => rw [Expr.readName, if_neg (of_decide_eq_false hrest)]

theorem Expr.read_element {t opener : Token} (ht : isIdentifier t.value = true)
    (ho : opener.value = "[") {more : List Token} {g : Group}
    (hg : Group.take opener "]" more = .ok g) {index : Expr}
    (hi : Expr.readIndex opener g.close g.inside = .ok index) :
    Expr.read (t :: opener :: more) =
      .ok (some ⟨.element t.value index (t.span.merge g.close.span), g.close, g.rest⟩) := by
  have hword := IsWord.of_isIdentifier ht
  rw [Expr.read_cons, if_neg (hword.ne (by decide)), if_neg (hword.ne (by decide)),
    isNumeral_of_isIdentifier ht, if_neg (by decide), if_pos ht, Expr.readName, if_pos ho, hg]
  show Expr.readElement t opener g = _
  rw [Expr.readElement, hi]
  rfl

theorem Expr.read_list {opener : Token} (ho : opener.value = "[") {rest : List Token} {g : Group}
    (hg : Group.take opener "]" rest = .ok g) {items : List Expr}
    (hi : Expr.readList "list item" opener g.inside = .ok items) :
    Expr.read (opener :: rest) =
      .ok (some ⟨.list items (opener.span.merge g.close.span), g.close, g.rest⟩) := by
  rw [Expr.read_cons, if_neg (by rw [ho]; decide), if_pos ho, hg]
  show Expr.readBracketed opener g = _
  rw [Expr.readBracketed, hi]
  rfl

theorem Expr.read_binary {opener : Token} (ho : opener.value = "(") {rest : List Token} {g : Group}
    (hg : Group.take opener ")" rest = .ok g) {left right : List Token} {t : Token}
    (hthree : operands g.inside = [left, [t], right]) {op : Operator} (ht : t.value = op.symbol)
    {l r : Expr} (hl : Expr.readWhole left = .ok l) (hr : Expr.readWhole right = .ok r) :
    Expr.read (opener :: rest) =
      .ok (some ⟨.binary op l r (opener.span.merge g.close.span), g.close, g.rest⟩) := by
  rw [Expr.read_cons, if_pos ho, hg]
  show Expr.readBinary opener g = _
  rw [Expr.readBinary, hthree]
  simp only [ht, Operator.ofSymbol?_symbol, hl, hr]
  rfl

theorem Expr.readItems_last (what : Text) (before : Token) {ts : List Token}
    (hs : splitItem 0 ts = (ts, none)) (hne : ts ≠ []) {e : Expr}
    (he : Expr.readWhole ts = .ok e) : Expr.readItems what before ts = .ok [e] := by
  rw [Expr.readItems_eq, hs]
  simp only
  rw [if_neg (by simpa using hne), he]
  rfl

theorem Expr.readItems_cons (what : Text) (before : Token) {ts item rest : List Token}
    {comma : Token} (hs : splitItem 0 ts = (item, some (comma, rest))) (hne : item ≠ []) {e : Expr}
    (he : Expr.readWhole item = .ok e) {items : List Expr}
    (hrest : Expr.readItems what comma rest = .ok items) :
    Expr.readItems what before ts = .ok (e :: items) := by
  rw [Expr.readItems_eq, hs]
  simp only
  rw [if_neg (by simpa using hne), he, hrest]
  rfl

theorem Expr.ne_nil_of_spells {e : Expr} (h : e.Spellable) {ts : List Token}
    (hs : Spells ts e.values) : ts ≠ [] := by
  obtain ⟨v, vs, hvalues, -⟩ := e.exists_values_cons h
  rw [hvalues] at hs
  obtain ⟨t, rest, rfl, -⟩ := hs.exists_cons
  simp

mutual

/-- The tokens of an expression are read as that expression, and no others are. -/
theorem Expr.read_values (e : Expr) (h : e.Spellable) {ts : List Token} (hs : Spells ts e.values)
    (rest : List Token) (hrest : opensIndex rest = false) :
    ∃ e' last, Expr.read (ts ++ rest) = .ok (some ⟨e', last, rest⟩) ∧
      e'.withoutSpans = e.withoutSpans := by
  match e, h with
  | .number n span, h =>
    obtain ⟨t, ts, rfl, ht, hs⟩ := hs.exists_cons
    cases hs.eq_nil
    have hnumeral : isNumeral t.value = true := by rw [ht]; exact isNumeral_ofNat n
    exact ⟨_, _, Expr.read_number hnumeral (readNumber_ofNat ht h) rest, rfl⟩
  | .var name span, h =>
    obtain ⟨t, ts, rfl, ht, hs⟩ := hs.exists_cons
    cases hs.eq_nil
    have hname : isIdentifier t.value = true := by rw [ht]; exact h
    refine ⟨_, _, Expr.read_var hname hrest, ?_⟩
    simp only [Expr.withoutSpans, ht]
  | .list items span, h =>
    obtain ⟨opener, within, close, rfl, ho, hwithin, hc⟩ := hs.exists_group
    have hg := Group.take_nested rest (Expr.nested_itemValues items h) hwithin
      (by rw [ho]; decide) hc
    obtain ⟨items', hread, heq⟩ := Expr.readList_values items h "list item" opener hwithin
    simp only [List.cons_append, List.append_assoc, List.nil_append]
    refine ⟨_, _, Expr.read_list ho hg hread, ?_⟩
    simp only [Expr.withoutSpans, heq]
  | .element name index span, h =>
    obtain ⟨t, ts, rfl, ht, hs⟩ := hs.exists_cons
    obtain ⟨opener, within, close, rfl, ho, hwithin, hc⟩ := hs.exists_group
    have hg := Group.take_nested rest (Expr.nested_values index h.2) hwithin
      (by rw [ho]; decide) hc
    obtain ⟨index', last, hread, heq⟩ := Expr.read_values index h.2 hwithin [] rfl
    rw [List.append_nil] at hread
    have hindex := Expr.readIndex_of_read opener close (Expr.ne_nil_of_spells h.2 hwithin)
      hread
    have hname : isIdentifier t.value = true := by rw [ht]; exact h.1
    simp only [List.cons_append, List.append_assoc, List.nil_append]
    refine ⟨_, _, Expr.read_element hname ho hg hindex, ?_⟩
    simp only [Expr.withoutSpans, heq, ht]
  | .binary op left right span, h =>
    have hinside := nested_operands op (Expr.nested_values left h.1) (Expr.nested_values right h.2)
    obtain ⟨opener, within, close, rfl, ho, hwithin, hc⟩ := hs.exists_group
    have hg := Group.take_nested rest hinside hwithin (by rw [ho]; decide) hc
    obtain ⟨l, t, r, hthree, hl, ht, hr⟩ := operands_binary h.1 h.2 hwithin
    obtain ⟨left', lastl, hreadl, heql⟩ := Expr.read_values left h.1 hl [] rfl
    obtain ⟨right', lastr, hreadr, heqr⟩ := Expr.read_values right h.2 hr [] rfl
    rw [List.append_nil] at hreadl hreadr
    have hread := Expr.read_binary ho hg hthree ht (Expr.readWhole_of_read hreadl)
      (Expr.readWhole_of_read hreadr)
    simp only [List.cons_append, List.append_assoc, List.nil_append]
    refine ⟨_, _, hread, ?_⟩
    simp only [Expr.withoutSpans, heql, heqr]

/-- The tokens between the brackets of a list or call are read as its items. -/
theorem Expr.readList_values (items : List Expr) (h : Expr.AllSpellable items) (what : Text)
    (opener : Token) {ts : List Token} (hs : Spells ts (Expr.itemValues items)) :
    ∃ items', Expr.readList what opener ts = .ok items' ∧
      Expr.allWithoutSpans items' = Expr.allWithoutSpans items := by
  match items, h with
  | [], _ =>
    cases Spells.eq_nil hs
    exact ⟨[], by rw [Expr.readList], rfl⟩
  | e :: rest, h =>
    obtain ⟨hne, hread⟩ := Expr.readItems_values (e :: rest) (by simp) h what opener hs
    obtain ⟨t, more, rfl⟩ := List.exists_cons_of_ne_nil hne
    rw [Expr.readList]
    exact hread

/-- The tokens of items with commas between them are read as the items. -/
theorem Expr.readItems_values (items : List Expr) (hne : items ≠ [])
    (h : Expr.AllSpellable items) (what : Text) (before : Token) {ts : List Token}
    (hs : Spells ts (Expr.itemValues items)) :
    ts ≠ [] ∧ ∃ items', Expr.readItems what before ts = .ok items' ∧
      Expr.allWithoutSpans items' = Expr.allWithoutSpans items := by
  match items, h with
  | [], _ => exact absurd rfl hne
  | [e], h =>
    have hne := Expr.ne_nil_of_spells h.1 hs
    obtain ⟨e', last, hread, heq⟩ := Expr.read_values e h.1 hs [] rfl
    have hsplit := splitItem_nested (Expr.nested_values e h.1) hs 0 (fun _ _ hv => hv) []
    rw [List.append_nil] at hread hsplit
    have hitems := Expr.readItems_last what before (by simpa [splitItem] using hsplit) hne
      (Expr.readWhole_of_read hread)
    exact ⟨hne, [e'], hitems, by simp only [Expr.allWithoutSpans, heq]⟩
  | e :: next :: rest, h =>
    have hs : Spells ts (e.values ++ ("," : Text) :: Expr.itemValues (next :: rest)) := hs
    obtain ⟨item, ts, rfl, hitem, hs⟩ := hs.exists_append
    obtain ⟨comma, others, rfl, hcomma, hothers⟩ := hs.exists_cons
    have hne := Expr.ne_nil_of_spells h.1 hitem
    obtain ⟨e', last, hread, heq⟩ := Expr.read_values e h.1 hitem [] rfl
    have hsplit := splitItem_nested (Expr.nested_values e h.1) hitem 0 (fun _ _ hv => hv)
      (comma :: others)
    rw [List.append_nil] at hread
    obtain ⟨-, items', hrest, heqs⟩ :=
      Expr.readItems_values (next :: rest) (by simp) h.2 what comma hothers
    have hitems := Expr.readItems_cons what before (by simpa [splitItem, hcomma] using hsplit) hne
      (Expr.readWhole_of_read hread) hrest
    refine ⟨by simp, e' :: items', hitems, ?_⟩
    rw [Expr.allWithoutSpans, heq, heqs, ← Expr.allWithoutSpans]

end

/-- The tokens after an equals sign are read as the expression they spell. -/
theorem readValue_values (e : Expr) (h : e.Spellable) (equals : Token) {ts : List Token}
    (hs : Spells ts e.values) (rest : List Token) (hrest : opensIndex rest = false) :
    ∃ e' last, readValue equals (ts ++ rest) = .ok ⟨e', last, rest⟩ ∧
      e'.withoutSpans = e.withoutSpans := by
  obtain ⟨e', last, hread, heq⟩ := e.read_values h hs rest hrest
  refine ⟨e', last, ?_, heq⟩
  rw [readValue.eq_def, hread]
  rfl

/-- A type, a name and an equals sign start a declaration. -/
theorem DeclarationHead.read?_plain {type name equals : Token} (hname : name.value ≠ "<")
    (hequals : equals.value = "=") (rest : List Token) :
    read? (type :: name :: equals :: rest) = some ⟨type, none, name, equals, rest⟩ := by
  unfold read?
  split
  · rename_i heq
    cases heq
    rw [if_neg fun h => hname h.1, if_pos hequals]
  · rename_i heq
    cases heq
    rw [if_pos hequals]
  · rename_i hother
    exact absurd rfl (hother _ _ _ _)

/-- So does a type with an argument, a name and an equals sign. -/
theorem DeclarationHead.read?_argument {type less argument greater name equals : Token}
    (hless : less.value = "<") (hgreater : greater.value = ">") (hequals : equals.value = "=")
    (rest : List Token) :
    read? (type :: less :: argument :: greater :: name :: equals :: rest) =
      some ⟨type, some argument, name, equals, rest⟩ := by
  rw [read?, if_pos ⟨hless, hgreater, hequals⟩]

/-- Without a type argument, what has no equals sign in third place is no declaration. -/
theorem DeclarationHead.read?_eq_none (t : Token) {next third : Token} (hnext : next.value ≠ "<")
    (hthird : third.value ≠ "=") (rest : List Token) :
    read? (t :: next :: third :: rest) = none := by
  unfold read?
  split
  · rename_i heq
    cases heq
    rw [if_neg fun h => hnext h.1, if_neg hthird]
  · rename_i heq
    cases heq
    rw [if_neg hthird]
  · rfl

/-- What follows a declaration head is the value of the declaration. -/
theorem Front.read_of_head {ts rest : List Token} {head : DeclarationHead}
    (hhead : DeclarationHead.read? ts = some head) {e : Expr} {last : Token}
    (hread : readValue head.equals head.rest = .ok ⟨e, last, rest⟩) :
    Front.read ts = .ok (.whole (.declaration
      { typeName := head.type.value
        typeSpan := head.type.span
        argument := head.argument
        name := head.name.value
        nameSpan := head.name.span
        value := e
        span := head.type.span.merge last.span }), rest) := by
  rw [Front.read.eq_def, hhead]
  simp only [Declaration.read, hread]
  rfl

/-- The tokens of a declaration are read as that declaration. -/
theorem Front.read_declaration (d : Declaration) (h : d.Spellable) {ts : List Token}
    (hs : Spells ts d.values) (rest : List Token) (hrest : opensIndex rest = false) :
    ∃ d', Front.read (ts ++ rest) = .ok (.whole (.declaration d'), rest) ∧
      d'.withoutSpans = d.withoutSpans := by
  obtain ⟨htype, hargument, hname, hvalue⟩ := h
  cases hd : d.argument with
  | none =>
    simp only [Declaration.values, hd] at hs
    obtain ⟨type, ts, rfl, hts, hs⟩ := hs.exists_cons
    obtain ⟨name, ts, rfl, hns, hs⟩ := hs.exists_cons
    obtain ⟨equals, ts, rfl, hes, hs⟩ := hs.exists_cons
    obtain ⟨e', last, hread, heq⟩ := readValue_values d.value hvalue equals hs rest hrest
    have hless : name.value ≠ "<" := hns ▸ (IsWord.of_isIdentifier hname).ne (by decide)
    refine ⟨_, Front.read_of_head (DeclarationHead.read?_plain hless hes _) hread, ?_⟩
    simp only [Declaration.withoutSpans, heq, hts, hns, hd, Option.map_none]
  | some token =>
    simp only [Declaration.values, hd] at hs
    obtain ⟨type, ts, rfl, hts, hs⟩ := hs.exists_cons
    obtain ⟨less, ts, rfl, hls, hs⟩ := hs.exists_cons
    obtain ⟨argument, ts, rfl, has, hs⟩ := hs.exists_cons
    obtain ⟨greater, ts, rfl, hgs, hs⟩ := hs.exists_cons
    obtain ⟨name, ts, rfl, hns, hs⟩ := hs.exists_cons
    obtain ⟨equals, ts, rfl, hes, hs⟩ := hs.exists_cons
    obtain ⟨e', last, hread, heq⟩ := readValue_values d.value hvalue equals hs rest hrest
    refine ⟨_, Front.read_of_head (DeclarationHead.read?_argument hls hgs hes _) hread, ?_⟩
    simp only [Declaration.withoutSpans, heq, hts, hns, hd, Option.map_some, Token.withoutSpan, has]

/-- The value of an assignment is what follows its equals sign. -/
theorem Assignment.readValueOf_eq (name : Token) (index : Option Expr) {equals : Token}
    {ts rest : List Token} {e : Expr} {last : Token}
    (hread : readValue equals ts = .ok ⟨e, last, rest⟩) :
    Assignment.readValueOf name index equals ts = .ok
      ({ name := name.value
         nameSpan := name.span
         index
         value := e
         span := name.span.merge last.span }, rest) := by
  rw [Assignment.readValueOf, hread]
  rfl

theorem Assignment.readElement_eq {name opener equals : Token} {ts more : List Token} {g : Group}
    (hg : Group.take opener "]" ts = .ok g) {index : Expr}
    (hindex : Expr.readIndex opener g.close g.inside = .ok index) (hmore : g.rest = equals :: more)
    (hequals : equals.value = "=") :
    Assignment.readElement name opener ts =
      Assignment.readValueOf name (some index) equals more := by
  simp only [Assignment.readElement, hg, hindex, hmore, hequals, if_true, bind, Except.bind]

section

variable {name next : Token} {ts rest : List Token}
  (hnone : DeclarationHead.read? (name :: next :: ts) = none)

include hnone

theorem Front.read_of_equals (hnext : next.value = "=") {a : Assignment}
    (ha : Assignment.readValueOf name none next ts = .ok (a, rest)) :
    Front.read (name :: next :: ts) = .ok (.whole (.assignment a), rest) := by
  rw [Front.read.eq_def, hnone]
  simp only
  rw [if_pos hnext, ha]
  rfl

theorem Front.read_of_bracket (hnext : next.value = "[") {a : Assignment}
    (ha : Assignment.readElement name next ts = .ok (a, rest)) :
    Front.read (name :: next :: ts) = .ok (.whole (.assignment a), rest) := by
  rw [Front.read.eq_def, hnone]
  simp only
  rw [if_neg (by rw [hnext]; decide), if_pos hnext, ha]
  rfl

theorem Front.read_of_parenthesis (hnext : next.value = "(") {head : CallHead}
    (hhead : CallHead.read name next ts = .ok head) :
    Front.read (name :: next :: ts) =
      .ok (.call name.value head.arguments head.span, head.rest) := by
  rw [Front.read.eq_def, hnone]
  simp only
  rw [if_neg (by rw [hnext]; decide), if_neg (by rw [hnext]; decide), if_pos hnext, hhead]
  rfl

end

/-- The tokens of an assignment are read as that assignment. -/
theorem Front.read_assignment (a : Assignment) (h : a.Spellable) {ts : List Token}
    (hs : Spells ts a.values) (rest : List Token) (hrest : opensIndex rest = false) :
    ∃ a', Front.read (ts ++ rest) = .ok (.whole (.assignment a'), rest) ∧
      a'.withoutSpans = a.withoutSpans := by
  obtain ⟨hname, hindex, hvalue⟩ := h
  cases ha : a.index with
  | none =>
    simp only [Assignment.values, ha] at hs
    obtain ⟨name, ts, rfl, hns, hs⟩ := hs.exists_cons
    obtain ⟨equals, ts, rfl, hes, hs⟩ := hs.exists_cons
    obtain ⟨e', last, hread, heq⟩ := readValue_values a.value hvalue equals hs rest hrest
    obtain ⟨v, vs, hvalues, hv⟩ := a.value.exists_values_cons hvalue
    rw [hvalues] at hs
    obtain ⟨third, ts, rfl, rfl, hs⟩ := hs.exists_cons
    have hnone := DeclarationHead.read?_eq_none name (by rw [hes]; decide) hv (ts ++ rest)
    refine ⟨_, Front.read_of_equals hnone hes (Assignment.readValueOf_eq _ _ hread), ?_⟩
    simp only [Assignment.withoutSpans, heq, hns, ha, Option.map_none]
  | some index =>
    have hspellable := hindex index ha
    simp only [Assignment.values, ha] at hs
    obtain ⟨name, ts, rfl, hns, hs⟩ := hs.exists_cons
    obtain ⟨opener, within, close, ts, rfl, hos, hwithin, hcs, hs⟩ := hs.exists_enclosed
    obtain ⟨equals, ts, rfl, hes, hs⟩ := hs.exists_cons
    have hg := Group.take_nested (equals :: (ts ++ rest)) (index.nested_values hspellable) hwithin
      (by rw [hos]; decide) hcs
    obtain ⟨index', last', hread', heq'⟩ := index.read_values hspellable hwithin [] rfl
    rw [List.append_nil] at hread'
    have hindex' := Expr.readIndex_of_read opener close (Expr.ne_nil_of_spells hspellable hwithin)
      hread'
    obtain ⟨e', last, hread, heq⟩ := readValue_values a.value hvalue equals hs rest hrest
    have hvalueOf := Assignment.readValueOf_eq name (some index') hread
    rw [← Assignment.readElement_eq hg hindex' rfl hes] at hvalueOf
    obtain ⟨v, vs, hvalues, hv⟩ := index.exists_values_cons hspellable
    rw [hvalues] at hwithin
    obtain ⟨third, within, rfl, rfl, -⟩ := hwithin.exists_cons
    have hnone := DeclarationHead.read?_eq_none name (by rw [hos]; decide) hv
      (within ++ close :: equals :: (ts ++ rest))
    simp only [List.cons_append, List.append_assoc]
    refine ⟨_, Front.read_of_bracket hnone hos hvalueOf, ?_⟩
    simp only [Assignment.withoutSpans, heq, heq', hns, ha, Option.map_some]

theorem Expr.head?_itemValues_ne (items : List Expr) (h : Expr.AllSpellable items) :
    ∀ v ∈ (Expr.itemValues items).head?, v ≠ "=" := by
  intro v hv
  match items, h with
  | [], _ => cases hv
  | [e], h =>
    obtain ⟨w, vs, hvalues, hw⟩ := e.exists_values_cons h.1
    rw [Expr.itemValues, hvalues] at hv
    cases hv
    exact hw
  | e :: next :: rest, h =>
    obtain ⟨w, vs, hvalues, hw⟩ := e.exists_values_cons h.1
    rw [Expr.itemValues, hvalues] at hv
    · cases hv
      exact hw
    · simp

/-- The tokens of a call up to its blocks are read as its name and arguments. -/
theorem Front.read_call {name : Text} {arguments : List Expr} (h : Expr.AllSpellable arguments)
    {ts : List Token} {values : List Text}
    (hs : Spells ts (name :: (enclosed "(" (Expr.itemValues arguments) ")" ++ values))) :
    ∃ arguments' span rest, Front.read ts = .ok (.call name arguments' span, rest) ∧
      Expr.allWithoutSpans arguments' = Expr.allWithoutSpans arguments ∧ Spells rest values := by
  obtain ⟨t, ts, rfl, rfl, htail⟩ := hs.exists_cons
  obtain ⟨opener, within, close, rest, rfl, hos, hwithin, hcs, hrest⟩ := htail.exists_enclosed
  have hg := Group.take_nested rest (Expr.nested_itemValues arguments h) hwithin
    (by rw [hos]; decide) hcs
  obtain ⟨arguments', hread, heq⟩ := Expr.readList_values arguments h "argument" opener hwithin
  have hhead : CallHead.read t opener (within ++ close :: rest) =
      .ok ⟨arguments', t.span.merge close.span, rest⟩ := by
    simp only [CallHead.read, hg, hread, bind, Except.bind]
    rfl
  have hnone : DeclarationHead.read? (t :: opener :: (within ++ close :: rest)) = none := by
    have hnext : opener.value ≠ "<" := by
      rw [hos]
      decide
    cases within with
    | nil =>
      have hthird : close.value ≠ "=" := by
        rw [hcs]
        decide
      exact DeclarationHead.read?_eq_none t hnext hthird rest
    | cons third within =>
      have hthird : third.value ≠ "=" :=
        Expr.head?_itemValues_ne arguments h _ (by rw [← hwithin]; rfl)
      exact DeclarationHead.read?_eq_none t hnext hthird (within ++ close :: rest)
  exact ⟨arguments', _, rest, Front.read_of_parenthesis hnone hos hhead, heq, hrest⟩

/-- A statement starts with a name, and no opening brace follows the name. -/
theorem Stmt.exists_values_cons (s : Stmt) (h : s.Spellable) :
    ∃ v w vs, s.values = v :: w :: vs ∧ isIdentifier v = true ∧ w ≠ "\x7b" := by
  cases s with
  | declaration d =>
    obtain ⟨htype, -, hname, -⟩ := h
    cases hd : d.argument with
    | none =>
      have hvalues : d.values = d.typeName :: d.name :: "=" :: d.value.values := by
        simp only [Declaration.values, hd]
      exact ⟨_, _, _, hvalues, htype, (IsWord.of_isIdentifier hname).ne (by decide)⟩
    | some token =>
      have hvalues : d.values =
          d.typeName :: "<" :: token.value :: ">" :: d.name :: "=" :: d.value.values := by
        simp only [Declaration.values, hd]
      exact ⟨_, _, _, hvalues, htype, by decide⟩
  | assignment a =>
    obtain ⟨hname, -, -⟩ := h
    cases ha : a.index with
    | none =>
      have hvalues : a.values = a.name :: "=" :: a.value.values := by
        simp only [Assignment.values, ha]
      exact ⟨_, _, _, hvalues, hname, by decide⟩
    | some index =>
      have hvalues : a.values =
          a.name :: (enclosed "[" index.values "]" ++ ("=" : Text) :: a.value.values) := by
        simp only [Assignment.values, ha]
      exact ⟨_, _, _, hvalues, hname, by decide⟩
  | call name arguments blocks span => exact ⟨name, "(", _, rfl, h.1, by decide⟩

/-- No expression goes on into the statements after it. -/
theorem opensIndex_of_statements {stmts : List Stmt} (h : Stmt.AllSpellable stmts) {ts : List Token}
    (hs : Spells ts (Stmt.allValues stmts)) : opensIndex ts = false := by
  cases stmts with
  | nil =>
    cases Spells.eq_nil hs
    rfl
  | cons s rest =>
    obtain ⟨v, w, vs, hvalues, hv, -⟩ := s.exists_values_cons h.1
    rw [Stmt.allValues, hvalues] at hs
    obtain ⟨t, ts, rfl, rfl, -⟩ := hs.exists_cons
    simp only [opensIndex, decide_eq_false_iff_not]
    exact (IsWord.of_isIdentifier hv).ne (by decide)

/-- No call goes on into the statements after it. -/
theorem BlockHead.read?_statements {stmts : List Stmt} (h : Stmt.AllSpellable stmts)
    {ts : List Token} (hs : Spells ts (Stmt.allValues stmts)) : BlockHead.read? ts = none := by
  cases stmts with
  | nil =>
    cases Spells.eq_nil hs
    rfl
  | cons s rest =>
    obtain ⟨v, w, vs, hvalues, hv, hw⟩ := s.exists_values_cons h.1
    rw [Stmt.allValues, hvalues] at hs
    obtain ⟨t, ts, rfl, rfl, htail⟩ := hs.exists_cons
    obtain ⟨next, ts, rfl, rfl, -⟩ := Spells.exists_cons htail
    rw [BlockHead.read?, if_neg ((IsWord.of_isIdentifier hv).ne (by decide)),
      if_neg fun hboth => hw hboth.2]

theorem BlockHead.read?_brace {t : Token} (ht : t.value = "\x7b") (rest : List Token) :
    BlockHead.read? (t :: rest) = some ⟨Block.defaultName, t, t, rest⟩ := by
  cases rest with
  | nil => rw [BlockHead.read?, if_pos ht]
  | cons next rest => rw [BlockHead.read?, if_pos ht]

theorem BlockHead.read?_label {t opener : Token} (ht : isIdentifier t.value = true)
    (ho : opener.value = "\x7b") (rest : List Token) :
    BlockHead.read? (t :: opener :: rest) = some ⟨t.value, t, opener, rest⟩ := by
  rw [BlockHead.read?, if_neg ((IsWord.of_isIdentifier ht).ne (by decide)), if_pos ⟨ht, ho⟩]

/-- A block starts with its label, if it has one that is written, and a brace. -/
theorem BlockHead.read?_values {name : Text} (h : isIdentifier name = true) {ts : List Token}
    {values : List Text} (hs : Spells ts (Block.labelValues name ++ ("\x7b" : Text) :: values)) :
    ∃ first opener rest, BlockHead.read? ts = some ⟨name, first, opener, rest⟩ ∧
      opener.value = "\x7b" ∧ Spells rest values := by
  by_cases hname : name = Block.defaultName
  · rw [Block.labelValues, if_pos hname, List.nil_append] at hs
    obtain ⟨opener, rest, rfl, ho, hrest⟩ := hs.exists_cons
    exact ⟨opener, opener, rest, hname ▸ BlockHead.read?_brace ho rest, ho, hrest⟩
  · rw [Block.labelValues, if_neg hname, List.singleton_append] at hs
    obtain ⟨first, ts, rfl, rfl, htail⟩ := hs.exists_cons
    obtain ⟨opener, rest, rfl, ho, hrest⟩ := Spells.exists_cons htail
    exact ⟨first, opener, rest, BlockHead.read?_label h ho rest, ho, hrest⟩

theorem Declaration.nested_values (d : Declaration) (h : d.Spellable) :
    Nested (fun _ => True) d.values := by
  obtain ⟨htype, hargument, hname, hvalue⟩ := h
  have htype := (IsWord.of_isIdentifier htype).isInner
  have hname := (IsWord.of_isIdentifier hname).isInner
  have hequals : Nested (fun _ => True) (("=" : Text) :: d.value.values) :=
    .inner (by decide) trivial ((d.value.nested_values hvalue).mono fun _ _ => trivial)
  cases hd : d.argument with
  | none =>
    simp only [Declaration.values, hd]
    exact .inner htype trivial (.inner hname trivial hequals)
  | some token =>
    have hnumeral := (IsWord.of_isNumeral (hargument token hd)).isInner
    simp only [Declaration.values, hd]
    exact .inner htype trivial (.inner (by decide) trivial (.inner hnumeral trivial
      (.inner (by decide) trivial (.inner hname trivial hequals))))

theorem Assignment.nested_values (a : Assignment) (h : a.Spellable) :
    Nested (fun _ => True) a.values := by
  obtain ⟨hname, hindex, hvalue⟩ := h
  have hname := (IsWord.of_isIdentifier hname).isInner
  have hequals : Nested (fun _ => True) (("=" : Text) :: a.value.values) :=
    .inner (by decide) trivial ((a.value.nested_values hvalue).mono fun _ _ => trivial)
  cases ha : a.index with
  | none =>
    simp only [Assignment.values, ha]
    exact .inner hname trivial hequals
  | some index =>
    have hinside := (index.nested_values (hindex index ha)).mono (Q := fun _ => True)
      fun _ _ => trivial
    simp only [Assignment.values, ha]
    exact .inner hname trivial (.group (by decide) hinside hequals)

mutual

theorem Stmt.nested_values (s : Stmt) (h : s.Spellable) : Nested (fun _ => True) s.values := by
  match s, h with
  | .declaration d, h => exact d.nested_values h
  | .assignment a, h => exact a.nested_values h
  | .call name arguments blocks span, h =>
    exact .inner (IsWord.of_isIdentifier h.1).isInner trivial
      (.group (by decide) (Expr.nested_itemValues arguments h.2.1)
        (Block.nested_allValues blocks h.2.2))

theorem Block.nested_allValues (blocks : List Block) (h : Block.AllSpellable blocks) :
    Nested (fun _ => True) (Block.allValues blocks) := by
  match blocks, h with
  | [], _ => exact .nil
  | .mk name body span :: rest, h =>
    have hlabel : Nested (fun _ => True) (Block.labelValues name) := by
      unfold Block.labelValues
      split
      · exact .nil
      · exact .singleton (IsWord.of_isIdentifier h.1).isInner trivial
    have hbody := Stmt.nested_allValues body h.2.1
    rw [Block.allValues, List.append_assoc]
    exact hlabel.append (.group (by decide) hbody (Block.nested_allValues rest h.2.2))

theorem Stmt.nested_allValues (stmts : List Stmt) (h : Stmt.AllSpellable stmts) :
    Nested (fun _ => True) (Stmt.allValues stmts) := by
  match stmts, h with
  | [], _ => exact .nil
  | s :: rest, h => exact (Stmt.nested_values s h.1).append (Stmt.nested_allValues rest h.2)

end

theorem Stmt.readAll_of_whole {tokens rest : List Token} {s : Stmt}
    (h : Front.read tokens = .ok (.whole s, rest)) :
    Stmt.readAll tokens = (Stmt.readAll rest).map (s :: ·) := by
  cases tokens with
  | nil => cases h
  | cons t tail =>
    rw [Stmt.readAll.eq_def]
    simp only
    split
    · rename_i f hf
      cases hf.symm.trans h
    · rename_i s' rest' hf
      cases hf.symm.trans h
      cases Stmt.readAll rest <;> rfl
    · rename_i name arguments span rest' hf
      cases hf.symm.trans h

theorem Stmt.readAll_of_call {tokens rest : List Token} {name : Text} {arguments : List Expr}
    {span : Span} (h : Front.read tokens = .ok (.call name arguments span, rest)) :
    Stmt.readAll tokens = (Block.readAll rest).map fun (blocks, others) =>
      .call name arguments blocks span :: others := by
  cases tokens with
  | nil => cases h
  | cons t tail =>
    rw [Stmt.readAll.eq_def]
    simp only
    split
    · rename_i f hf
      cases hf.symm.trans h
    · rename_i s' rest' hf
      cases hf.symm.trans h
    · rename_i name' arguments' span' rest' hf
      cases hf.symm.trans h
      cases Block.readAll rest <;> rfl

theorem Block.readAll_of_none {tokens : List Token} (h : BlockHead.read? tokens = none) :
    Block.readAll tokens = (Stmt.readAll tokens).map fun others => ([], others) := by
  rw [Block.readAll.eq_def]
  split
  · cases Stmt.readAll tokens <;> rfl
  · rename_i head hhead
    cases hhead.symm.trans h

theorem Block.readAll_of_head {tokens : List Token} {head : BlockHead} {g : Group}
    {body : List Stmt} (hhead : BlockHead.read? tokens = some head)
    (hg : Group.take head.opener "\x7d" head.rest = .ok g)
    (hbody : Stmt.readAll g.inside = .ok body) :
    Block.readAll tokens = (Block.readAll g.rest).map fun (blocks, others) =>
      (.mk head.name body (head.first.span.merge g.close.span) :: blocks, others) := by
  rw [Block.readAll.eq_def]
  split
  · rename_i hhead'
    cases hhead'.symm.trans hhead
  · rename_i head' hhead'
    cases hhead'.symm.trans hhead
    split
    · rename_i f hf
      cases hf.symm.trans hg
    · rename_i g' hg'
      cases hg'.symm.trans hg
      rw [hbody]
      cases Block.readAll g.rest <;> rfl

theorem Stmt.readAll_whole {ts rest : List Token} {s : Stmt} {others : List Stmt}
    (hfront : Front.read ts = .ok (.whole s, rest)) (hothers : Stmt.readAll rest = .ok others) :
    Stmt.readAll ts = .ok (s :: others) := by
  rw [Stmt.readAll_of_whole hfront, hothers]
  rfl

theorem Stmt.readAll_call {ts rest : List Token} {name : Text} {arguments : List Expr} {span : Span}
    {blocks : List Block} {others : List Stmt}
    (hfront : Front.read ts = .ok (.call name arguments span, rest))
    (hblocks : Block.readAll rest = .ok (blocks, others)) :
    Stmt.readAll ts = .ok (.call name arguments blocks span :: others) := by
  rw [Stmt.readAll_of_call hfront, hblocks]
  rfl

theorem Block.readAll_nil {ts : List Token} {others : List Stmt}
    (hhead : BlockHead.read? ts = none) (hothers : Stmt.readAll ts = .ok others) :
    Block.readAll ts = .ok ([], others) := by
  rw [Block.readAll_of_none hhead, hothers]
  rfl

theorem Block.readAll_cons {ts : List Token} {head : BlockHead} {g : Group} {body : List Stmt}
    {blocks : List Block} {others : List Stmt} (hhead : BlockHead.read? ts = some head)
    (hg : Group.take head.opener "\x7d" head.rest = .ok g)
    (hbody : Stmt.readAll g.inside = .ok body)
    (hblocks : Block.readAll g.rest = .ok (blocks, others)) :
    Block.readAll ts =
      .ok (.mk head.name body (head.first.span.merge g.close.span) :: blocks, others) := by
  rw [Block.readAll_of_head hhead hg hbody, hblocks]
  rfl

mutual

/-- The tokens of statements are read as these statements. -/
theorem Stmt.readAll_values (stmts : List Stmt) (h : Stmt.AllSpellable stmts) {ts : List Token}
    (hs : Spells ts (Stmt.allValues stmts)) :
    ∃ stmts', Stmt.readAll ts = .ok stmts' ∧
      Stmt.allWithoutSpans stmts' = Stmt.allWithoutSpans stmts := by
  match stmts, h with
  | [], _ =>
    cases Spells.eq_nil hs
    exact ⟨[], by rw [Stmt.readAll], rfl⟩
  | .declaration d :: rest, h =>
    obtain ⟨ts, more, rfl, hts, hmore⟩ := Spells.exists_append hs
    obtain ⟨d', hfront, heq⟩ := Front.read_declaration d h.1 hts more
      (opensIndex_of_statements h.2 hmore)
    obtain ⟨others, hothers, heqs⟩ := Stmt.readAll_values rest h.2 hmore
    refine ⟨_, Stmt.readAll_whole hfront hothers, ?_⟩
    simp only [Stmt.allWithoutSpans, Stmt.withoutSpans, heq, heqs]
  | .assignment a :: rest, h =>
    obtain ⟨ts, more, rfl, hts, hmore⟩ := Spells.exists_append hs
    obtain ⟨a', hfront, heq⟩ := Front.read_assignment a h.1 hts more
      (opensIndex_of_statements h.2 hmore)
    obtain ⟨others, hothers, heqs⟩ := Stmt.readAll_values rest h.2 hmore
    refine ⟨_, Stmt.readAll_whole hfront hothers, ?_⟩
    simp only [Stmt.allWithoutSpans, Stmt.withoutSpans, heq, heqs]
  | .call name arguments blocks span :: rest, h =>
    have hs : Spells ts (name :: (enclosed "(" (Expr.itemValues arguments) ")" ++
        (Block.allValues blocks ++ Stmt.allValues rest))) := by
      simpa only [Stmt.allValues, Stmt.values, List.cons_append, List.append_assoc] using hs
    obtain ⟨arguments', span', more, hfront, heq, hmore⟩ := Front.read_call h.1.2.1 hs
    obtain ⟨blocks', others, hblocks, heqb, heqs⟩ := Block.readAll_values blocks h.1.2.2 h.2
      (fun {_} => Stmt.readAll_values rest h.2) hmore
    refine ⟨_, Stmt.readAll_call hfront hblocks, ?_⟩
    simp only [Stmt.allWithoutSpans, Stmt.withoutSpans, heq, heqb, heqs]

/-- The tokens of the blocks of a call are read as these blocks, and what follows them as
    the statements after the call, if that is how the statements are read. -/
theorem Block.readAll_values (blocks : List Block) (h : Block.AllSpellable blocks)
    {stmts : List Stmt} (hstmts : Stmt.AllSpellable stmts)
    (hread : ∀ {ts : List Token}, Spells ts (Stmt.allValues stmts) →
      ∃ stmts', Stmt.readAll ts = .ok stmts' ∧
        Stmt.allWithoutSpans stmts' = Stmt.allWithoutSpans stmts)
    {ts : List Token} (hs : Spells ts (Block.allValues blocks ++ Stmt.allValues stmts)) :
    ∃ blocks' stmts', Block.readAll ts = .ok (blocks', stmts') ∧
      Block.allWithoutSpans blocks' = Block.allWithoutSpans blocks ∧
      Stmt.allWithoutSpans stmts' = Stmt.allWithoutSpans stmts := by
  match blocks, h with
  | [], _ =>
    obtain ⟨stmts', hothers, heqs⟩ := hread hs
    exact ⟨[], stmts', Block.readAll_nil (BlockHead.read?_statements hstmts hs) hothers, rfl, heqs⟩
  | .mk name body span :: rest, h =>
    have hs : Spells ts (Block.labelValues name ++ ("\x7b" : Text) :: (Stmt.allValues body ++
        ("\x7d" : Text) :: (Block.allValues rest ++ Stmt.allValues stmts))) := by
      simpa only [Block.allValues, enclosed, List.cons_append, List.append_assoc, List.nil_append]
        using hs
    obtain ⟨first, opener, ts, hhead, ho, hs⟩ := BlockHead.read?_values h.1 hs
    obtain ⟨within, ts, rfl, hwithin, hs⟩ := hs.exists_append
    obtain ⟨close, more, rfl, hc, hmore⟩ := hs.exists_cons
    have hg := Group.take_nested more (Stmt.nested_allValues body h.2.1) hwithin
      (by rw [ho]; decide) hc
    obtain ⟨body', hbody, heq⟩ := Stmt.readAll_values body h.2.1 hwithin
    obtain ⟨blocks', stmts', hblocks, heqb, heqs⟩ :=
      Block.readAll_values rest h.2.2 hstmts hread hmore
    refine ⟨_, stmts', Block.readAll_cons hhead hg hbody hblocks, ?_, heqs⟩
    simp only [Block.allWithoutSpans, heq, heqb]

end

/-- Tokens without comment marks stay as they are. -/
theorem stripComments_eq_self {ts : List Token} (h : ∀ t ∈ ts, t.value ≠ "/*" ∧ t.value ≠ "*/") :
    stripComments ts = .ok ts := by
  induction ts with
  | nil => rw [stripComments]
  | cons t rest ih =>
    obtain ⟨ht, hrest⟩ := List.forall_mem_cons.1 h
    rw [stripComments, if_neg ht.1, if_neg ht.2, ih hrest]
    rfl

/-- Reading a printed program gives the program back, up to its spans. -/
theorem Program.ofTokens_print (p : Program) (h : p.Spellable) :
    ∃ p', Program.ofTokens (Token.ofSource p.print) = .ok p' ∧
      p'.withoutSpans = p.withoutSpans := by
  have hs : Spells (Token.ofSource p.print) (Stmt.allValues p.statements) := p.values_print h
  have hcomments : ∀ t ∈ Token.ofSource p.print, t.value ≠ "/*" ∧ t.value ≠ "*/" := by
    intro t ht
    apply (Stmt.nested_allValues p.statements h).ne_comment
    rw [← hs]
    exact List.mem_map_of_mem ht
  obtain ⟨stmts, hread, heq⟩ := Stmt.readAll_values p.statements h hs
  refine ⟨⟨stmts⟩, ?_, ?_⟩
  · simp only [Program.ofTokens, stripComments_eq_self hcomments, hread, bind, Except.bind]
    rfl
  · rw [Program.withoutSpans, heq, ← Program.withoutSpans]

/-- A list and a call with a plain and a labelled block, written without spans. -/
def Program.conditional : Program where
  statements := [
    .declaration
      { typeName := "IntList"
        typeSpan := .none
        argument := some ⟨"2", .none⟩
        name := "k"
        nameSpan := .none
        value := .list
          [.number 1 .none, .binary .pow (.var "a" .none) (.number 2 .none) .none] .none
        span := .none },
    .call "if" [.element "k" (.number 0 .none) .none]
      [.mk Block.defaultName
        [.assignment
          { name := "k"
            nameSpan := .none
            index := some (.var "a" .none)
            value := .number 7 .none
            span := .none }] .none,
       .mk "else" [.call "print" [] [] .none] .none] .none]

theorem Program.ofTokens_print_conditional :
    Program.conditional.Spellable ∧
      ∃ p', Program.ofTokens (Token.ofSource Program.conditional.print) = .ok p' ∧
        p'.withoutSpans = Program.conditional.withoutSpans := by
  have hspellable : Program.conditional.Spellable := by decide
  exact ⟨hspellable, Program.ofTokens_print _ hspellable⟩

end Goat
