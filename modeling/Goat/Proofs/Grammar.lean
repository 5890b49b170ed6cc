import Goat.Program.Parser
import Goat.Proofs.RoundTrip

/-!
# The grammar

Which rows of token values are spellings of a program. A program has one spelling, but for
zeros in front of its numbers and the label `default`, which may be left out. Whatever the
tokens, reading a program from them takes every token outside comments, in order: the
program's parts are spelled by exactly the tokens that they were read from.
-/

namespace Goat

/-- The value is the number in decimal, perhaps with zeros in front. -/
def IsNumeralOf (n : Nat) (value : Text) : Prop :=
  ∃ zeros, value = List.replicate zeros 0x30 ++ Text.ofNat n

mutual

/-- The values spell an expression. -/
inductive Expr.Spelling : Expr → List Text → Prop where
  | number {n span v} (h : IsNumeralOf n v) : Expr.Spelling (.number n span) [v]
  | list {items span vs} (h : Expr.ItemsSpelling items vs) :
      Expr.Spelling (.list items span) (enclosed "[" vs "]")
  | var {name span} : Expr.Spelling (.var name span) [name]
  | element {name index span vs} (h : Expr.Spelling index vs) :
      Expr.Spelling (.element name index span) (name :: enclosed "[" vs "]")
  | binary {op left right span vs ws} (hl : Expr.Spelling left vs) (hr : Expr.Spelling right ws) :
      Expr.Spelling (.binary op left right span) (enclosed "(" (vs ++ op.symbol :: ws) ")")

/-- The values spell expressions with commas between them. -/
inductive Expr.ItemsSpelling : List Expr → List Text → Prop where
  | nil : Expr.ItemsSpelling [] []
  | single {e vs} (h : Expr.Spelling e vs) : Expr.ItemsSpelling [e] vs
  | cons {e e' rest vs ws} (h : Expr.Spelling e vs) (hrest : Expr.ItemsSpelling (e' :: rest) ws) :
      Expr.ItemsSpelling (e :: e' :: rest) (vs ++ ("," : Text) :: ws)

end

/-- The values of the tokens of a declaration up to its equals sign. -/
def Declaration.headValues (d : Declaration) : List Text :=
  match d.argument with
  | some token => [d.typeName, "<", token.value, ">", d.name, "="]
  | none => [d.typeName, d.name, "="]

/-- The values spell a declaration. -/
inductive Declaration.Spelling (d : Declaration) : List Text → Prop where
  | mk {vs} (h : d.value.Spelling vs) : d.Spelling (d.headValues ++ vs)

/-- The values spell the target of an assignment: a name or an element. -/
inductive Assignment.TargetSpelling (name : Text) : Option Expr → List Text → Prop where
  | var : TargetSpelling name none [name]
  | element {index vs} (h : index.Spelling vs) :
      TargetSpelling name (some index) (name :: enclosed "[" vs "]")

/-- The values spell an assignment. -/
inductive Assignment.Spelling (a : Assignment) : List Text → Prop where
  | mk {vs ws} (ht : TargetSpelling a.name a.index vs) (hv : a.value.Spelling ws) :
      a.Spelling (vs ++ ("=" : Text) :: ws)

/-- The values spell the label of a block: the default label may be left out. -/
inductive Block.LabelSpelling : Text → List Text → Prop where
  | written {name} : LabelSpelling name [name]
  | default : LabelSpelling Block.defaultName []

mutual

/-- The values spell a statement. -/
inductive Stmt.Spelling : Stmt → List Text → Prop where
  | declaration {d vs} (h : d.Spelling vs) : Stmt.Spelling (.declaration d) vs
  | assignment {a vs} (h : a.Spelling vs) : Stmt.Spelling (.assignment a) vs
  | call {name arguments blocks span vs ws} (ha : Expr.ItemsSpelling arguments vs)
      (hb : Block.AllSpelling blocks ws) :
      Stmt.Spelling (.call name arguments blocks span) (name :: (enclosed "(" vs ")" ++ ws))

/-- The values spell the blocks of a call. -/
inductive Block.AllSpelling : List Block → List Text → Prop where
  | nil : Block.AllSpelling [] []
  | cons {name body span rest label vs ws} (hl : Block.LabelSpelling name label)
      (hb : Stmt.AllSpelling body vs) (hrest : Block.AllSpelling rest ws) :
      Block.AllSpelling (.mk name body span :: rest) (label ++ enclosed "\x7b" vs "\x7d" ++ ws)

/-- The values spell statements. -/
inductive Stmt.AllSpelling : List Stmt → List Text → Prop where
  | nil : Stmt.AllSpelling [] []
  | cons {s rest vs ws} (h : Stmt.Spelling s vs) (hrest : Stmt.AllSpelling rest ws) :
      Stmt.AllSpelling (s :: rest) (vs ++ ws)

end

/-- The second row is what the first one holds outside comments. A comment goes from its
    opening mark to the next closing mark, whatever stands between them. -/
inductive Uncommented : List Token → List Token → Prop where
  | nil : Uncommented [] []
  | keep {t : Token} {ts rest : List Token} (hopen : t.value ≠ "/*") (hclose : t.value ≠ "*/")
      (h : Uncommented ts rest) : Uncommented (t :: ts) (t :: rest)
  | comment {opener close : Token} {inside ts rest : List Token} (hopen : opener.value = "/*")
      (hinside : ∀ t ∈ inside, t.value ≠ "*/") (hclose : close.value = "*/")
      (h : Uncommented ts rest) : Uncommented (opener :: (inside ++ close :: ts)) rest

/-! ### Numerals -/

theorem Text.digit_sub {b : UInt8} (h : Text.isDigit b = true) :
    Text.digit (b.toNat - 0x30) = b ∧ b.toNat - 0x30 < 10 := by
  simp only [Text.isDigit, Bool.and_eq_true, decide_eq_true_eq, UInt8.le_iff_toNat_le] at h
  have hlow : 0x30 ≤ b.toNat := h.1
  have hhigh : b.toNat ≤ 0x39 := h.2
  refine ⟨?_, by omega⟩
  rw [Text.digit, Nat.add_sub_cancel' hlow, UInt8.ofNat_toNat]

/-- Digits after a number that is not zero continue its decimal form. -/
theorem Text.ofNat_append {t : Text} {acc n : Nat} (hacc : 0 < acc)
    (h : Text.readDigits acc t = some n) : Text.ofNat acc ++ t = Text.ofNat n := by
  induction t generalizing acc with
  | nil =>
    cases h
    exact List.append_nil _
  | cons b rest ih =>
    rw [Text.readDigits] at h
    split at h
    · rename_i hb
      obtain ⟨hdigit, hlt⟩ := Text.digit_sub hb
      have hnext : Text.ofNat (acc * 10 + (b.toNat - 0x30)) = Text.ofNat acc ++ [b] := by
        have hdiv : (acc * 10 + (b.toNat - 0x30)) / 10 = acc := by omega
        have hmod : (acc * 10 + (b.toNat - 0x30)) % 10 = b.toNat - 0x30 := by omega
        rw [Text.ofNat, if_neg (by omega), hdiv, hmod, hdigit]
      rw [← ih (by omega) h, hnext, List.append_assoc, List.singleton_append]
    · cases h

/-- A row of digits is the decimal form of its value, with zeros in front. -/
theorem isNumeralOf_readDigits {t : Text} {n : Nat} (hne : t ≠ [])
    (h : Text.readDigits 0 t = some n) : IsNumeralOf n t := by
  induction t with
  | nil => exact absurd rfl hne
  | cons b rest ih =>
    rw [Text.readDigits] at h
    split at h
    · rename_i hb
      obtain ⟨hdigit, hlt⟩ := Text.digit_sub hb
      rw [Nat.zero_mul, Nat.zero_add] at h
      rcases Nat.eq_zero_or_pos (b.toNat - 0x30) with hzero | hpos
      · rw [hzero] at h hdigit
        by_cases hrest : rest = []
        · subst hrest
          cases h
          refine ⟨0, ?_⟩
          rw [← hdigit, Text.ofNat]
          rfl
        · obtain ⟨zeros, heq⟩ := ih hrest h
          refine ⟨zeros + 1, ?_⟩
          rw [List.replicate_succ, List.cons_append, ← heq, ← hdigit]
          rfl
      · refine ⟨0, ?_⟩
        rw [List.replicate_zero, List.nil_append, ← Text.ofNat_append hpos h, Text.ofNat,
          if_pos hlt, hdigit, List.singleton_append]
    · cases h

theorem isNumeralOf_readNumber {t : Token} {n : Nat} (h : readNumber t = .ok n) :
    IsNumeralOf n t.value := by
  unfold readNumber at h
  split at h
  · rename_i m hm
    split at h
    · cases h
      cases hvalue : t.value with
      | nil =>
        rw [hvalue] at hm
        cases hm
      | cons b rest =>
        rw [hvalue] at hm
        exact isNumeralOf_readDigits (List.cons_ne_nil b rest) hm
    · cases h
  · cases h

/-! ### Brackets -/

/-- A group ends with the closing bracket that was asked for. -/
theorem Group.close_takeFrom {outer : List Text} {want : Text} {seen : List Token} {last : Token}
    {tokens : List Token} {g : Group} (h : takeFrom outer want seen last tokens = .ok g) :
    some g.close.value = (want :: outer).getLast? := by
  induction tokens generalizing outer want seen last with
  | nil => simp [takeFrom] at h
  | cons t rest ih =>
    unfold takeFrom at h
    split at h
    · rw [ih h]
      simp
    · split at h
      · split at h
        · rename_i hwant
          split at h
          · cases h
            simp [hwant]
          · rw [ih h]
            simp
        · cases h
      · exact ih h

/-- The tokens that a group was taken from are the group between its brackets and the rest. -/
theorem Group.values_take {opener : Token} {closer : Text} {tokens : List Token} {g : Group}
    (h : take opener closer tokens = .ok g) :
    (opener :: tokens).map Token.value =
      enclosed opener.value (g.inside.map Token.value) closer ++ g.rest.map Token.value := by
  have hclose : g.close.value = closer := by simpa using close_takeFrom h
  rw [← take_eq_ok h]
  simp [enclosed, hclose]

theorem Operator.symbol_of_ofSymbol? {value : Text} {op : Operator}
    (h : Operator.ofSymbol? value = some op) : op.symbol = value := by
  simpa using List.find?_some h

/-! ### Expressions -/

/-- The reading was taken from the front of the tokens: they spell its expression and then
    go on with what it leaves. -/
def Reading.TakenFrom (reading : Reading) (tokens : List Token) : Prop :=
  ∃ vs, reading.expr.Spelling vs ∧ tokens.map Token.value = vs ++ reading.rest.map Token.value

/-- A reading that leaves nothing is spelled by all of the tokens. -/
theorem Reading.TakenFrom.spelling {reading : Reading} {tokens : List Token}
    (h : reading.TakenFrom tokens) (hrest : reading.rest = []) :
    reading.expr.Spelling (tokens.map Token.value) := by
  obtain ⟨vs, hspelling, heq⟩ := h
  rw [heq, hrest, List.map_nil, List.append_nil]
  exact hspelling

/-- Every expression read from fewer than `n` tokens was taken from their front. -/
def Expr.SpelledBelow (n : Nat) : Prop :=
  ∀ tokens reading, tokens.length < n → Expr.read tokens = .ok (some reading) →
    reading.TakenFrom tokens

section

variable {n : Nat} (hread : Expr.SpelledBelow n)
include hread

theorem Expr.spelling_readWhole {tokens : List Token} (hn : tokens.length < n) {e : Expr}
    (h : Expr.readWhole tokens = .ok e) : e.Spelling (tokens.map Token.value) := by
  obtain ⟨last, h⟩ := Expr.exists_read_of_readWhole h
  exact (hread _ _ hn h).spelling rfl

theorem Expr.spelling_readIndex {opener close : Token} {tokens : List Token}
    (hn : tokens.length < n) {e : Expr} (h : Expr.readIndex opener close tokens = .ok e) :
    e.Spelling (tokens.map Token.value) := by
  obtain ⟨last, h⟩ := Expr.exists_read_of_readIndex h
  exact (hread _ _ hn h).spelling rfl

/-- The items are spelled item by item: each one takes the tokens up to its comma. -/
theorem Expr.spelling_readItems {what : Text} {before : Token} {tokens : List Token}
    (hn : tokens.length < n) {items : List Expr}
    (h : Expr.readItems what before tokens = .ok items) :
    items ≠ [] ∧ Expr.ItemsSpelling items (tokens.map Token.value) := by
  induction hlength : tokens.length using Nat.strongRecOn
    generalizing before tokens items with
  | _ length ih =>
    rcases Expr.readItems_eq_ok h with ⟨e, rfl, he⟩ |
      ⟨item, comma, rest, e, others, rfl, hcomma, rfl, he, hothers⟩
    · exact ⟨List.cons_ne_nil e [], .single (Expr.spelling_readWhole hread hn he)⟩
    · rw [List.length_append, List.length_cons] at hn hlength
      obtain ⟨hne, hspelling⟩ := ih rest.length (by omega) (by omega) hothers rfl
      obtain ⟨e', others', rfl⟩ := List.exists_cons_of_ne_nil hne
      refine ⟨List.cons_ne_nil e _, ?_⟩
      rw [List.map_append, List.map_cons, hcomma]
      exact .cons (Expr.spelling_readWhole hread (by omega) he) hspelling

theorem Expr.spelling_readList {what : Text} {opener : Token} {tokens : List Token}
    (hn : tokens.length < n) {items : List Expr}
    (h : Expr.readList what opener tokens = .ok items) :
    Expr.ItemsSpelling items (tokens.map Token.value) := by
  rw [Expr.readList.eq_def] at h
  split at h
  · cases h
    exact .nil
  · exact (Expr.spelling_readItems hread hn h).2

end

/-- Where the brackets of an expression hold fewer tokens than `n`, what they hold is
    spelled part by part, and so is the expression. -/
theorem Expr.takenFrom_of_spelledBelow {tokens : List Token} {reading : Reading}
    (hread : Expr.SpelledBelow tokens.length) (h : Expr.read tokens = .ok (some reading)) :
    reading.TakenFrom tokens := by
  cases Expr.readAs_of_read h with
  | binary ht hg hthree hop hl hr =>
    have hlength := Group.length_take hg
    rw [List.length_cons] at hread
    have hleft := length_operand_left hthree
    have hright := length_operand_right hthree
    refine ⟨_, .binary (Expr.spelling_readWhole hread (by omega) hl)
      (Expr.spelling_readWhole hread (by omega) hr), ?_⟩
    rw [Group.values_take hg, ht, eq_of_operands hthree, List.map_append, List.map_cons,
      Operator.symbol_of_ofSymbol? hop]
  | list ht hg hitems =>
    have hlength := Group.length_take hg
    rw [List.length_cons] at hread
    refine ⟨_, .list (Expr.spelling_readList hread (by omega) hitems), ?_⟩
    rw [Group.values_take hg, ht]
  | number hnumeral hn => exact ⟨_, .number (isNumeralOf_readNumber hn), rfl⟩
  | var hname hrest => exact ⟨_, .var, rfl⟩
  | element hname hopener hg hindex =>
    have hlength := Group.length_take hg
    rw [List.length_cons, List.length_cons] at hread
    refine ⟨_, .element (Expr.spelling_readIndex hread (by omega) hindex), ?_⟩
    rw [List.map_cons, Group.values_take hg, hopener]
    rfl

theorem Expr.spelledBelow (n : Nat) : Expr.SpelledBelow n := by
  induction n with
  | zero =>
    intro tokens reading hn
    cases hn
  | succ n ih =>
    intro tokens reading hn h
    apply Expr.takenFrom_of_spelledBelow _ h
    intro shorter reading' hshorter h'
    exact ih shorter reading' (by omega) h'

/-- An expression is spelled by the tokens that it was read from. -/
theorem Expr.takenFrom_read {tokens : List Token} {reading : Reading}
    (h : Expr.read tokens = .ok (some reading)) : reading.TakenFrom tokens :=
  Expr.spelledBelow _ tokens reading (Nat.lt_succ_self _) h

theorem takenFrom_readValue {equals : Token} {tokens : List Token} {reading : Reading}
    (h : readValue equals tokens = .ok reading) : reading.TakenFrom tokens := by
  obtain ⟨found, hfound, h⟩ := exists_of_bind_eq_ok h
  split at h
  · cases h
    exact Expr.takenFrom_read hfound
  · split at h <;> cases h

/-! ### Statements -/

/-- The head of a declaration takes the tokens up to the equals sign. -/
theorem DeclarationHead.values_read {tokens : List Token} {head : DeclarationHead}
    (h : read? tokens = some head) {d : Declaration} (htype : d.typeName = head.type.value)
    (hargument : d.argument = head.argument) (hname : d.name = head.name.value) :
    tokens.map Token.value = d.headValues ++ head.rest.map Token.value := by
  unfold read? at h
  rw [Declaration.headValues, htype, hargument, hname]
  split at h
  · split at h
    · rename_i hmarks
      cases h
      simp [hmarks]
    · split at h
      · rename_i hequals
        cases h
        simp [hequals]
      · cases h
  · split at h
    · rename_i hequals
      cases h
      simp [hequals]
    · cases h
  · cases h

theorem Declaration.spelling_read {tokens rest : List Token} {head : DeclarationHead}
    (hhead : DeclarationHead.read? tokens = some head) {d : Declaration}
    (h : Declaration.read head = .ok (d, rest)) :
    ∃ vs, d.Spelling vs ∧ tokens.map Token.value = vs ++ rest.map Token.value := by
  obtain ⟨value, hvalue, h⟩ := exists_of_bind_eq_ok h
  cases h
  obtain ⟨vs, hspelling, heq⟩ := takenFrom_readValue hvalue
  refine ⟨_, .mk hspelling, ?_⟩
  rw [List.append_assoc, ← heq]
  exact DeclarationHead.values_read hhead rfl rfl rfl

/-- An assignment is spelled by its target, the equals sign and its value. -/
theorem Assignment.spelling_readValueOf {name equals : Token} {index : Option Expr}
    {target : List Text} (htarget : TargetSpelling name.value index target)
    (hequals : equals.value = "=") {tokens rest : List Token} {a : Assignment}
    (h : readValueOf name index equals tokens = .ok (a, rest)) :
    ∃ vs, a.Spelling vs ∧
      target ++ (equals :: tokens).map Token.value = vs ++ rest.map Token.value := by
  obtain ⟨value, hvalue, h⟩ := exists_of_bind_eq_ok h
  cases h
  obtain ⟨vs, hspelling, heq⟩ := takenFrom_readValue hvalue
  refine ⟨_, .mk htarget hspelling, ?_⟩
  rw [List.map_cons, heq, hequals, List.append_assoc, List.cons_append]

theorem Assignment.spelling_readElement {name opener : Token} (hopener : opener.value = "[")
    {tokens rest : List Token} {a : Assignment}
    (h : readElement name opener tokens = .ok (a, rest)) :
    ∃ vs, a.Spelling vs ∧
      (name :: opener :: tokens).map Token.value = vs ++ rest.map Token.value := by
  obtain ⟨g, hg, h⟩ := exists_of_bind_eq_ok h
  obtain ⟨index, hindex, h⟩ := exists_of_bind_eq_ok h
  split at h
  · rename_i equals more hrest
    split at h
    · rename_i hequals
      have hspelling := Expr.spelling_readIndex (Expr.spelledBelow _) (Nat.lt_succ_self _) hindex
      obtain ⟨vs, hassignment, heq⟩ := spelling_readValueOf (.element hspelling) hequals h
      refine ⟨vs, hassignment, ?_⟩
      rw [← heq, List.map_cons, Group.values_take hg, hopener, hrest]
      rfl
    · cases h
  · cases h

/-- What the front of a statement says about the tokens it takes: they spell the statement,
    or the name and the arguments of a call. -/
def Front.Spelling : Front → List Text → Prop
  | .whole s, vs => s.Spelling vs
  | .call name arguments _, vs =>
    ∃ ws, Expr.ItemsSpelling arguments ws ∧ vs = name :: enclosed "(" ws ")"

theorem CallHead.spelling_read {name opener : Token} (hopener : opener.value = "(")
    {tokens : List Token} {head : CallHead} (h : read name opener tokens = .ok head) :
    ∃ vs, Front.Spelling (.call name.value head.arguments head.span) vs ∧
      (name :: opener :: tokens).map Token.value = vs ++ head.rest.map Token.value := by
  obtain ⟨g, hg, h⟩ := exists_of_bind_eq_ok h
  obtain ⟨arguments, harguments, h⟩ := exists_of_bind_eq_ok h
  cases h
  have hspelling := Expr.spelling_readList (Expr.spelledBelow _) (Nat.lt_succ_self _) harguments
  refine ⟨_, ⟨_, hspelling, rfl⟩, ?_⟩
  rw [List.map_cons, Group.values_take hg, hopener]
  rfl

/-- The front of a statement is spelled by the tokens in front of those that it leaves. -/
theorem Front.spelling_read {tokens rest : List Token} {front : Front}
    (h : read tokens = .ok (front, rest)) :
    ∃ vs, front.Spelling vs ∧ tokens.map Token.value = vs ++ rest.map Token.value := by
  cases readAs_of_read h with
  | declaration hhead hd =>
    obtain ⟨vs, hspelling, heq⟩ := Declaration.spelling_read hhead hd
    exact ⟨vs, .declaration hspelling, heq⟩
  | value hnone hnext ha =>
    obtain ⟨vs, hspelling, heq⟩ := Assignment.spelling_readValueOf .var hnext ha
    exact ⟨vs, .assignment hspelling, heq⟩
  | element hnone hnext ha =>
    obtain ⟨vs, hspelling, heq⟩ := Assignment.spelling_readElement hnext ha
    exact ⟨vs, .assignment hspelling, heq⟩
  | call hnone hnext hhead => exact CallHead.spelling_read hnext hhead

/-- The head of a block takes its label, if it is written, and the opening brace. -/
theorem BlockHead.spelling_read {tokens : List Token} {head : BlockHead}
    (h : read? tokens = some head) :
    ∃ label, Block.LabelSpelling head.name label ∧ head.opener.value = "\x7b" ∧
      tokens.map Token.value = label ++ (head.opener :: head.rest).map Token.value := by
  unfold read? at h
  split at h
  · cases h
  · split at h
    · rename_i ht
      cases h
      exact ⟨[], .default, ht, rfl⟩
    · cases h
  · split at h
    · rename_i ht
      cases h
      exact ⟨[], .default, ht, rfl⟩
    · split at h
      · rename_i hlabel
        cases h
        exact ⟨_, .written, hlabel.2, rfl⟩
      · cases h

mutual

/-- Statements are spelled by the tokens that they were read from. -/
theorem Stmt.spelling_readAll (tokens : List Token) {stmts : List Stmt}
    (h : Stmt.readAll tokens = .ok stmts) : Stmt.AllSpelling stmts (tokens.map Token.value) := by
  rcases Stmt.readAll_cases h with ⟨rfl, rfl⟩ | ⟨s, rest, others, hf, hlength, hothers, rfl⟩ |
    ⟨name, arguments, span, rest, blocks, others, hf, hlength, hblocks, rfl⟩
  · exact .nil
  · obtain ⟨vs, hspelling, heq⟩ := Front.spelling_read hf
    rw [heq]
    exact .cons hspelling (Stmt.spelling_readAll rest hothers)
  · obtain ⟨vs, ⟨ws, hspelling, rfl⟩, heq⟩ := Front.spelling_read hf
    obtain ⟨us, xs, hb, ho, hrest⟩ := Block.spelling_readAll rest hblocks
    have hvalues : tokens.map Token.value = (name :: (enclosed "(" ws ")" ++ us)) ++ xs := by
      rw [heq, hrest, List.cons_append, List.cons_append, List.append_assoc]
    rw [hvalues]
    exact .cons (.call hspelling hb) ho
  termination_by 2 * tokens.length
  decreasing_by all_goals omega

/-- The blocks of a call are spelled by the tokens in front, and the statements after the
    call by the others. -/
theorem Block.spelling_readAll (tokens : List Token) {blocks : List Block} {others : List Stmt}
    (h : Block.readAll tokens = .ok (blocks, others)) :
    ∃ vs ws, Block.AllSpelling blocks vs ∧ Stmt.AllSpelling others ws ∧
      tokens.map Token.value = vs ++ ws := by
  rcases Block.readAll_cases h with
    ⟨-, hothers, rfl⟩ | ⟨head, g, body, more, hh, hg, hbody, hmore, hlength, rfl⟩
  · exact ⟨[], _, .nil, Stmt.spelling_readAll tokens hothers, rfl⟩
  · obtain ⟨label, hlabel, hopener, heq⟩ := BlockHead.spelling_read hh
    obtain ⟨vs, ws, hb, ho, hrest⟩ := Block.spelling_readAll g.rest hmore
    refine ⟨_, ws, .cons hlabel (Stmt.spelling_readAll g.inside hbody) hb, ho, ?_⟩
    rw [heq, Group.values_take hg, hopener, hrest, List.append_assoc, List.append_assoc]
  termination_by 2 * tokens.length + 1
  decreasing_by all_goals omega

end

/-! ### Comments -/

theorem skipComment?_eq_some {tokens rest : List Token} (h : skipComment? tokens = some rest) :
    ∃ (inside : List Token) (close : Token), (∀ t ∈ inside, t.value ≠ "*/") ∧
      close.value = "*/" ∧ tokens = inside ++ close :: rest := by
  induction tokens with
  | nil => cases h
  | cons t tail ih =>
    unfold skipComment? at h
    split at h
    · rename_i ht
      cases h
      exact ⟨[], t, List.forall_mem_nil _, ht, rfl⟩
    · rename_i ht
      obtain ⟨inside, close, hinside, hclose, rfl⟩ := ih h
      exact ⟨t :: inside, close, List.forall_mem_cons.2 ⟨ht, hinside⟩, hclose, rfl⟩

theorem uncommented_stripComments (tokens : List Token) {rest : List Token}
    (h : stripComments tokens = .ok rest) : Uncommented tokens rest := by
  fun_induction stripComments tokens generalizing rest with
  | case1 =>
    cases h
    exact .nil
  | case2 => cases h
  | case3 t tail ht after hs ih =>
    obtain ⟨inside, close, hinside, hclose, rfl⟩ := skipComment?_eq_some hs
    exact .comment ht hinside hclose (ih h)
  | case4 => cases h
  | case5 t tail hopen hclose ih =>
    obtain ⟨kept, hkept, h⟩ := exists_of_bind_eq_ok h
    cases h
    exact .keep hopen hclose (ih hkept)

/-- A program that can be read from tokens is spelled by exactly those of them that stand
    outside comments. -/
theorem Program.allSpelling_of_ofTokens {tokens : List Token} {p : Program}
    (h : Program.ofTokens tokens = .ok p) :
    ∃ rest, Uncommented tokens rest ∧ Stmt.AllSpelling p.statements (rest.map Token.value) := by
  obtain ⟨rest, hrest, h⟩ := exists_of_bind_eq_ok h
  obtain ⟨stmts, hstmts, h⟩ := exists_of_bind_eq_ok h
  cases h
  exact ⟨rest, uncommented_stripComments tokens hrest, Stmt.spelling_readAll rest hstmts⟩

/-- What succeeds with a result that passes a check has such a result. -/
theorem exists_ok_of_any {ε α : Type} {x : Except ε α} {check : α → Bool}
    (h : x.toOption.any check = true) : ∃ a, x = .ok a ∧ check a = true := by
  cases x with
  | error e => cases h
  | ok a => exact ⟨a, rfl, h⟩

/-- A number with zeros in front, a comment and a label that could be left out. -/
def Program.variedSource : Text :=
  "IntList<02> k = [07, (k[00] + 1)] /* x = ( */ while(k[1]) default \x7b k[1] = 0 \x7d"

theorem Program.allSpelling_of_ofTokens_varied :
    ∃ p, Program.ofTokens (Token.ofSource Program.variedSource) = .ok p ∧
      ∃ rest, Uncommented (Token.ofSource Program.variedSource) rest ∧
        Stmt.AllSpelling p.statements (rest.map Token.value) := by
  have hread : (Program.ofTokens (Token.ofSource Program.variedSource)).toOption.any
      (fun _ => true) = true := by decide +kernel
  obtain ⟨p, hp, -⟩ := exists_ok_of_any hread
  exact ⟨p, hp, Program.allSpelling_of_ofTokens hp⟩

end Goat
