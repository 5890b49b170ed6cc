import Goat.Program.Parser
import Goat.Proofs.Grammar
import Goat.Proofs.Positions

/-!
# Failures of reading

Whatever the tokens of a source text, reading a program from them yields one whose spans all
reach from a token to a token, or a failure of syntax with such a span. `Parses` says so of each
step, and follows the reader from the first token on.
-/

namespace Goat

open Diagnostic

/-- The kind of the failure that a cause makes. -/
def Diagnostic.Cause.kind : Cause → Kind
  | .expected _ | .expectedInstead .. | .operandCount _ | .invalidOperator _ | .missingItem _
  | .invalidExpression | .invalidIndex | .unrecognizedStatement _ | .invalidNumber _
  | .unexpected _ => .syntaxError
  | _ => .compileError

/-- The codes tell the kinds: those of failures of syntax start with an S. -/
theorem Diagnostic.kind_of_mem_catalog : ∀ entry ∈ catalog,
    entry.kind = if entry.code.head? = some 0x53 then .syntaxError else .compileError := by
  decide +kernel

theorem Diagnostic.Cause.code_mem_catalog (cause : Cause) :
    cause.code ∈ catalog.map Entry.code := by
  cases cause <;>
    simp only [Cause.code, catalog, List.map_cons, List.mem_cons, true_or, or_true]

/-- The catalog has an entry for every cause. -/
theorem Diagnostic.Cause.exists_entry (cause : Cause) :
    ∃ entry ∈ catalog, Entry.find? cause.code = some entry ∧ entry.code = cause.code := by
  obtain ⟨known, hknown, hcode⟩ := List.mem_map.1 cause.code_mem_catalog
  have hsome : (Entry.find? cause.code).isSome = true :=
    List.find?_isSome.2 ⟨known, hknown, beq_iff_eq.2 hcode⟩
  obtain ⟨entry, hentry⟩ := Option.isSome_iff_exists.1 hsome
  have hsame := List.find?_some (p := fun entry : Entry => entry.code == cause.code) hentry
  exact ⟨entry, List.mem_of_find?_eq_some hentry, hentry, beq_iff_eq.1 hsame⟩

/-- The catalog keeps every cause under its kind. -/
theorem Failure.kind_ofCause (cause : Cause) (span : Span) :
    (Failure.ofCause cause span).kind = cause.kind := by
  obtain ⟨entry, hmem, hfind, hcode⟩ := cause.exists_entry
  have hkind : (Failure.ofCause cause span).kind = entry.kind := by
    rw [Failure.ofCause, Failure.ofCode, hfind]
    rfl
  rw [hkind, Diagnostic.kind_of_mem_catalog entry hmem, hcode]
  cases cause <;> rfl

/-! ### Spans of programs -/

section Parts

variable (source : Text)

mutual

/-- The spans of an expression and of its parts reach from a token to a token. -/
def Expr.Within : Expr → Prop
  | .number _ span => span.Within source
  | .list items span => span.Within source ∧ Expr.AllWithin items
  | .var _ span => span.Within source
  | .element _ index span => span.Within source ∧ index.Within
  | .binary _ left right span => span.Within source ∧ left.Within ∧ right.Within

/-- So do those of some expressions. -/
def Expr.AllWithin : List Expr → Prop
  | [] => True
  | item :: rest => item.Within ∧ Expr.AllWithin rest

end

/-- The spans of a declaration reach from a token to a token. -/
structure Declaration.Within (d : Declaration) : Prop where
  typeSpan : d.typeSpan.Within source
  argument : ∀ t ∈ d.argument, t.span.Within source
  nameSpan : d.nameSpan.Within source
  value : d.value.Within source
  span : d.span.Within source

/-- The spans of an assignment reach from a token to a token. -/
structure Assignment.Within (a : Assignment) : Prop where
  nameSpan : a.nameSpan.Within source
  index : ∀ index ∈ a.index, index.Within source
  value : a.value.Within source
  span : a.span.Within source

mutual

/-- The spans of a statement and of its parts reach from a token to a token. -/
def Stmt.Within : Stmt → Prop
  | .declaration d => d.Within source
  | .assignment a => a.Within source
  | .call _ arguments blocks span =>
    Expr.AllWithin source arguments ∧ Block.AllWithin blocks ∧ span.Within source

/-- So do those of some blocks. -/
def Block.AllWithin : List Block → Prop
  | [] => True
  | .mk _ body span :: rest => Stmt.AllWithin body ∧ span.Within source ∧ Block.AllWithin rest

/-- So do those of some statements. -/
def Stmt.AllWithin : List Stmt → Prop
  | [] => True
  | s :: rest => s.Within ∧ Stmt.AllWithin rest

end

end Parts

variable {source : Text}

theorem Expr.Within.span {e : Expr} (h : e.Within source) : e.span.Within source := by
  cases e with
  | number value span => exact h
  | var name span => exact h
  | list items span => exact h.1
  | element name index span => exact h.1
  | binary op left right span => exact h.1

/-! ### Steps -/

/-- The step yields something with the property, or a failure of syntax that points at tokens. -/
def Parses (source : Text) {α : Type} (P : α → Prop) : Except Failure α → Prop
  | .ok a => P a
  | .error f => f.kind = .syntaxError ∧ f.span.Within source

section Steps

variable {α β : Type} {P : α → Prop} {Q : β → Prop}

theorem Parses.bind {x : Except Failure α} {f : α → Except Failure β} (hx : Parses source P x)
    (hf : ∀ a, P a → Parses source Q (f a)) : Parses source Q (x >>= f) := by
  cases x with
  | error failure => exact hx
  | ok a => exact hf a hx

theorem Parses.fail {cause : Cause} {span : Span} (hkind : cause.kind = .syntaxError)
    (hspan : span.Within source) : Parses source P (.error (.ofCause cause span)) :=
  ⟨(Failure.kind_ofCause cause span).trans hkind, hspan⟩

/-- A failure that points at a token of the source. -/
theorem Parses.failAt {cause : Cause} {t : Token} (hkind : cause.kind = .syntaxError)
    (ht : t ∈ Token.ofSource source) : Parses source P (.error (.ofCause cause t.span)) :=
  .fail hkind (Token.within_of_mem ht)

theorem Parses.of_error {x : Except Failure α} {f : Failure} (h : Parses source P x)
    (hx : x = .error f) : Parses source Q (.error f) := by
  rwa [hx] at h

theorem Parses.of_ok {x : Except Failure α} {a : α} (h : Parses source P x) (hx : x = .ok a) :
    P a := by
  rwa [hx] at h

end Steps

/-! ### Brackets -/

/-- The tokens are tokens of the source. -/
def Token.AllFrom (source : Text) (tokens : List Token) : Prop :=
  ∀ t ∈ tokens, t ∈ Token.ofSource source

theorem Token.AllFrom.cons {t : Token} {tokens : List Token} :
    Token.AllFrom source (t :: tokens) ↔
      t ∈ Token.ofSource source ∧ Token.AllFrom source tokens := List.forall_mem_cons

theorem Token.AllFrom.append {xs ys : List Token} :
    Token.AllFrom source (xs ++ ys) ↔ Token.AllFrom source xs ∧ Token.AllFrom source ys :=
  List.forall_mem_append

/-- The tokens of a group are tokens of the source. -/
structure Group.From (source : Text) (g : Group) : Prop where
  inside : Token.AllFrom source g.inside
  close : g.close ∈ Token.ofSource source
  rest : Token.AllFrom source g.rest

theorem Group.parses_takeFrom {outer : List Text} {want : Text} {seen : List Token} {last : Token}
    {tokens : List Token} (hseen : Token.AllFrom source seen) (hlast : last ∈ Token.ofSource source)
    (htokens : Token.AllFrom source tokens) :
    Parses source (Group.From source) (Group.takeFrom outer want seen last tokens) := by
  induction tokens generalizing outer want seen last with
  | nil => exact .failAt rfl hlast
  | cons t rest ih =>
    obtain ⟨ht, hrest⟩ := Token.AllFrom.cons.1 htokens
    have hseen' : Token.AllFrom source (t :: seen) := Token.AllFrom.cons.2 ⟨ht, hseen⟩
    rw [Group.takeFrom.eq_def]
    simp only
    split
    · exact ih hseen' ht hrest
    · split
      · split
        · split
          · exact ⟨fun t h => hseen t (List.mem_reverse.1 h), ht, hrest⟩
          · exact ih hseen' ht hrest
        · exact .failAt rfl ht
      · exact ih hseen' ht hrest

theorem Group.parses_take {opener : Token} (closer : Text) {tokens : List Token}
    (hopener : opener ∈ Token.ofSource source) (htokens : Token.AllFrom source tokens) :
    Parses source (Group.From source) (Group.take opener closer tokens) :=
  Group.parses_takeFrom (List.forall_mem_nil _) hopener htokens

theorem ne_nil_of_mem_operandsFrom {depth : Nat} {item tokens operand : List Token}
    (h : operand ∈ operandsFrom depth item tokens) : operand ≠ [] := by
  induction tokens generalizing depth item with
  | nil =>
    rw [operandsFrom] at h
    split at h
    · cases h
    · rename_i hitem
      obtain rfl := List.mem_singleton.1 h
      simpa using hitem
  | cons t rest ih =>
    rw [operandsFrom.eq_def] at h
    simp only at h
    split at h
    · split at h
      · exact ih h
      · split at h
        · exact ih h
        · rcases List.mem_cons.1 h with rfl | h
          · simp
          · exact ih h
    · split at h
      · rcases List.mem_cons.1 h with rfl | h
        · simp
        · exact ih h
      · exact ih h

theorem Token.AllFrom.operand {tokens operand : List Token} (h : Token.AllFrom source tokens)
    (hoperand : operand ∈ operands tokens) : Token.AllFrom source operand := by
  intro t ht
  apply h
  rw [← flatten_operands tokens]
  exact List.mem_flatten.2 ⟨operand, hoperand, ht⟩

theorem parses_operandCountFailure {close : Token} {tokens : List Token}
    (hclose : close ∈ Token.ofSource source) (htokens : Token.AllFrom source tokens) {α : Type}
    {P : α → Prop} : Parses source P (.error (operandCountFailure close (operands tokens))) := by
  refine .failAt rfl ?_
  cases hfourth : (operands tokens)[3]?.bind List.head? with
  | none => exact hclose
  | some t =>
    obtain ⟨operand, hoperand, ht⟩ := Option.bind_eq_some_iff.1 hfourth
    exact htokens.operand (List.mem_of_getElem? hoperand) t (List.mem_of_mem_head? ht)

/-! ### Expressions -/

theorem parses_readNumber {t : Token} (ht : t ∈ Token.ofSource source) :
    Parses source (fun _ => True) (readNumber t) := by
  unfold readNumber
  split
  · split
    · trivial
    · exact .failAt rfl ht
  · exact .failAt rfl ht

/-- The spans of what was read reach from a token to a token, and the tokens after it are tokens
    of the source. -/
structure Reading.From (source : Text) (reading : Reading) : Prop where
  expr : reading.expr.Within source
  last : reading.last ∈ Token.ofSource source
  rest : Token.AllFrom source reading.rest

/-- No expression was found, or one whose spans reach from a token to a token. -/
def Reading.FoundFrom (source : Text) (found : Option Reading) : Prop :=
  ∀ reading ∈ found, reading.From source

/-- An expression that leaves no tokens is taken; else the failure points at the token after it. -/
theorem Reading.From.parses_whole {reading : Reading} (h : reading.From source)
    (cause : Token → Cause) (hcause : ∀ t, (cause t).kind = .syntaxError) :
    Parses source (Expr.Within source)
      (match reading.rest with
        | [] => .ok reading.expr
        | t :: _ => .error (.ofCause (cause t) t.span)) := by
  split
  · exact h.expr
  · rename_i t rest hrest
    exact .failAt (hcause t) (h.rest t (hrest ▸ List.mem_cons_self))

/-- What a group holds comes from the source and is shorter than the tokens it was taken from. -/
theorem Parses.bind_take {β : Type} {Q : β → Prop} {opener : Token} {closer : Text}
    {tokens : List Token} {f : Group → Except Failure β} (hopener : opener ∈ Token.ofSource source)
    (htokens : Token.AllFrom source tokens)
    (hf : ∀ g, g.From source → g.inside.length < tokens.length → Parses source Q (f g)) :
    Parses source Q (Group.take opener closer tokens >>= f) := by
  have htake := Group.parses_take closer hopener htokens
  cases hg : Group.take opener closer tokens with
  | error failure => exact htake.of_error hg
  | ok g =>
    have hlength := Group.length_take hg
    exact hf g (htake.of_ok hg) (by omega)

/-- Reading an expression from fewer than `n` tokens of the source yields spans that reach from a
    token to a token, whether it succeeds or fails. -/
def Expr.ParsesBelow (source : Text) (n : Nat) : Prop :=
  ∀ tokens : List Token, tokens.length < n → Token.AllFrom source tokens →
    Parses source (Reading.FoundFrom source) (Expr.read tokens)

section

variable {n : Nat} (hread : Expr.ParsesBelow source n)
include hread

theorem Expr.parses_readWhole {tokens : List Token} (hn : tokens.length < n)
    (h : Token.AllFrom source tokens) (hne : tokens ≠ []) :
    Parses source (Expr.Within source) (Expr.readWhole tokens) := by
  obtain ⟨t, more, heq⟩ := List.exists_cons_of_ne_nil hne
  rw [Expr.readWhole.eq_def]
  refine Parses.bind (hread tokens hn h) fun found hfound => ?_
  cases found with
  | none =>
    rw [heq]
    exact .failAt rfl (h t (heq ▸ List.mem_cons_self))
  | some reading =>
    exact (hfound reading rfl).parses_whole (fun t => .unexpected t.value) fun _ => rfl

theorem Expr.parses_readIndex {opener close : Token} {tokens : List Token}
    (hn : tokens.length < n) (hopener : opener ∈ Token.ofSource source)
    (hclose : close ∈ Token.ofSource source) (h : Token.AllFrom source tokens) :
    Parses source (Expr.Within source) (Expr.readIndex opener close tokens) := by
  cases tokens with
  | nil =>
    rw [Expr.readIndex]
    exact .fail rfl ((Token.within_of_mem hopener).merge (Token.within_of_mem hclose))
  | cons first rest =>
    rw [Expr.readIndex]
    refine Parses.bind (hread (first :: rest) hn h) fun found hfound => ?_
    cases found with
    | none => exact .failAt rfl (h first List.mem_cons_self)
    | some reading =>
      exact (hfound reading rfl).parses_whole (fun _ => .invalidIndex) fun _ => rfl

theorem Expr.parses_readItems (what : Text) {before : Token} {tokens : List Token}
    (hn : tokens.length < n) (hbefore : before ∈ Token.ofSource source)
    (h : Token.AllFrom source tokens) :
    Parses source (Expr.AllWithin source) (Expr.readItems what before tokens) := by
  induction hlength : tokens.length using Nat.strongRecOn generalizing before tokens with
  | _ length ih =>
    rw [Expr.readItems_eq]
    rcases hs : splitItem 0 tokens with ⟨item, _ | ⟨comma, rest⟩⟩
    · obtain ⟨-, rfl⟩ := (splitItem_eq hs).resolve_right (by simp)
      simp only
      split
      · exact .failAt rfl hbefore
      · rename_i hitem
        refine Parses.bind (Expr.parses_readWhole hread hn h (by simpa using hitem))
          fun e he => ?_
        exact ⟨he, trivial⟩
    · obtain ⟨hnone, -⟩ | ⟨comma', rest', hmore, -, rfl⟩ := splitItem_eq hs
      · cases hnone
      · cases hmore
        rw [Token.AllFrom.append, Token.AllFrom.cons] at h
        rw [List.length_append, List.length_cons] at hn hlength
        simp only
        split
        · exact .failAt rfl h.2.1
        · rename_i hitem
          refine Parses.bind (Expr.parses_readWhole hread (by omega) h.1 (by simpa using hitem))
            fun e he => ?_
          exact Parses.bind (ih rest.length (by omega) (by omega) h.2.1 h.2.2 rfl)
            fun others hothers => ⟨he, hothers⟩

theorem Expr.parses_readList (what : Text) {opener : Token} {tokens : List Token}
    (hn : tokens.length < n) (hopener : opener ∈ Token.ofSource source)
    (h : Token.AllFrom source tokens) :
    Parses source (Expr.AllWithin source) (Expr.readList what opener tokens) := by
  cases tokens with
  | nil =>
    rw [Expr.readList]
    trivial
  | cons first rest =>
    rw [Expr.readList]
    exact Expr.parses_readItems hread what hn hopener h

theorem Expr.parses_readBinary {opener : Token} {g : Group} (hn : g.inside.length < n)
    (hopener : opener ∈ Token.ofSource source) (hg : g.From source) :
    Parses source (Reading.FoundFrom source) (Expr.readBinary opener g) := by
  rw [Expr.readBinary.eq_def]
  split
  · rename_i left op extra right ho
    have hitem (operand : List Token) (hmem : operand ∈ [left, op :: extra, right]) :
        Token.AllFrom source operand ∧ operand ≠ [] := by
      rw [← ho] at hmem
      exact ⟨hg.inside.operand hmem, ne_nil_of_mem_operandsFrom hmem⟩
    obtain ⟨hleftFrom, hleftNe⟩ := hitem left (by simp)
    obtain ⟨hrightFrom, hrightNe⟩ := hitem right (by simp)
    have hop : op ∈ Token.ofSource source :=
      (hitem (op :: extra) (by simp)).1 op List.mem_cons_self
    have hleft := length_operand_left ho
    have hright := length_operand_right ho
    split
    · refine Parses.bind (Expr.parses_readWhole hread (by omega) hleftFrom hleftNe)
        fun l hl => ?_
      refine Parses.bind (Expr.parses_readWhole hread (by omega) hrightFrom hrightNe)
        fun r hr => ?_
      rintro reading ⟨⟩
      exact ⟨⟨(Token.within_of_mem hopener).merge (Token.within_of_mem hg.close), hl, hr⟩,
        hg.close, hg.rest⟩
    · exact .failAt rfl hop
  · exact parses_operandCountFailure hg.close hg.inside

theorem Expr.parses_readBracketed {opener : Token} {g : Group} (hn : g.inside.length < n)
    (hopener : opener ∈ Token.ofSource source) (hg : g.From source) :
    Parses source (Reading.FoundFrom source) (Expr.readBracketed opener g) := by
  refine Parses.bind (Expr.parses_readList hread "list item" hn hopener hg.inside)
    fun items hitems => ?_
  rintro reading ⟨⟩
  exact ⟨⟨(Token.within_of_mem hopener).merge (Token.within_of_mem hg.close), hitems⟩, hg.close,
    hg.rest⟩

theorem Expr.parses_readName {name : Token} {tokens : List Token} (hn : tokens.length ≤ n)
    (hname : name ∈ Token.ofSource source) (h : Token.AllFrom source tokens) :
    Parses source (Reading.FoundFrom source) (Expr.readName name tokens) := by
  have hspan := Token.within_of_mem hname
  cases tokens with
  | nil =>
    rintro reading ⟨⟩
    exact ⟨hspan, hname, h⟩
  | cons opener more =>
    obtain ⟨hopener, hmore⟩ := Token.AllFrom.cons.1 h
    rw [List.length_cons] at hn
    rw [Expr.readName]
    split
    · refine .bind_take hopener hmore fun g hg hlength => ?_
      refine Parses.bind (Expr.parses_readIndex hread (by omega) hopener hg.close hg.inside)
        fun index hindex => ?_
      rintro reading ⟨⟩
      exact ⟨⟨hspan.merge (Token.within_of_mem hg.close), hindex⟩, hg.close, hg.rest⟩
    · rintro reading ⟨⟩
      exact ⟨hspan, hname, h⟩

/-- The first token decides: a parenthesis, a list, a numeral, or a name and perhaps an index.
    Each reads its parts from the tokens after it. -/
theorem Expr.parses_read_cons {t : Token} {rest : List Token} (hn : rest.length ≤ n)
    (ht : t ∈ Token.ofSource source) (hrest : Token.AllFrom source rest) :
    Parses source (Reading.FoundFrom source) (Expr.read (t :: rest)) := by
  rw [Expr.read_cons]
  split
  · exact .bind_take ht hrest fun g hg hlength =>
      Expr.parses_readBinary hread (by omega) ht hg
  · split
    · exact .bind_take ht hrest fun g hg hlength =>
        Expr.parses_readBracketed hread (by omega) ht hg
    · split
      · refine Parses.bind (parses_readNumber ht) fun value _ => ?_
        rintro reading ⟨⟩
        exact ⟨Token.within_of_mem ht, ht, hrest⟩
      · split
        · exact Expr.parses_readName hread hn ht hrest
        · rintro reading ⟨⟩

end

theorem Expr.parsesBelow (n : Nat) : Expr.ParsesBelow source n := by
  induction n with
  | zero => intro tokens hn; omega
  | succ n ih =>
    intro tokens hn h
    cases tokens with
    | nil =>
      rw [Expr.read]
      rintro reading ⟨⟩
    | cons t rest =>
      obtain ⟨ht, hrest⟩ := Token.AllFrom.cons.1 h
      rw [List.length_cons] at hn
      exact Expr.parses_read_cons ih (by omega) ht hrest

/-! ### Statements -/

theorem parses_readValue {equals : Token} {tokens : List Token}
    (hequals : equals ∈ Token.ofSource source) (h : Token.AllFrom source tokens) :
    Parses source (Reading.From source) (readValue equals tokens) := by
  rw [readValue.eq_def]
  refine Parses.bind (Expr.parsesBelow _ tokens (Nat.lt_succ_self _) h) fun found hfound => ?_
  cases found with
  | some reading => exact hfound reading rfl
  | none =>
    simp only
    split
    · exact .failAt rfl (h _ List.mem_cons_self)
    · exact .failAt rfl hequals

/-- The tokens of a declaration head are tokens of the source. -/
structure DeclarationHead.From (source : Text) (head : DeclarationHead) : Prop where
  type : head.type ∈ Token.ofSource source
  argument : ∀ t ∈ head.argument, t ∈ Token.ofSource source
  name : head.name ∈ Token.ofSource source
  equals : head.equals ∈ Token.ofSource source
  rest : Token.AllFrom source head.rest

theorem DeclarationHead.from_of_read? {tokens : List Token} {head : DeclarationHead}
    (h : DeclarationHead.read? tokens = some head) (htokens : Token.AllFrom source tokens) :
    head.From source := by
  unfold DeclarationHead.read? at h
  split at h
  · simp only [Token.AllFrom.cons] at htokens
    obtain ⟨htype, ha, hb, hc, hd, he, hrest⟩ := htokens
    split at h
    · cases h
      refine ⟨htype, ?_, hd, he, hrest⟩
      rintro t ⟨⟩
      exact hb
    · split at h
      · cases h
        exact ⟨htype, by simp, ha, hb,
          Token.AllFrom.cons.2 ⟨hc, Token.AllFrom.cons.2 ⟨hd, Token.AllFrom.cons.2 ⟨he, hrest⟩⟩⟩⟩
      · cases h
  · simp only [Token.AllFrom.cons] at htokens
    obtain ⟨htype, hname, hequals, hrest⟩ := htokens
    split at h
    · cases h
      exact ⟨htype, by simp, hname, hequals, hrest⟩
    · cases h
  · cases h

theorem Declaration.parses_read {head : DeclarationHead} (h : head.From source) :
    Parses source (fun result => result.1.Within source ∧ Token.AllFrom source result.2)
      (Declaration.read head) := by
  refine Parses.bind (parses_readValue h.equals h.rest) fun value hvalue => ⟨?_, hvalue.rest⟩
  exact {
    typeSpan := Token.within_of_mem h.type
    argument := fun t ht => Token.within_of_mem (h.argument t ht)
    nameSpan := Token.within_of_mem h.name
    value := hvalue.expr
    span := (Token.within_of_mem h.type).merge (Token.within_of_mem hvalue.last) }

section Assignments

variable {name : Token} (hname : name ∈ Token.ofSource source)

include hname

theorem Assignment.parses_readValueOf {index : Option Expr} {equals : Token} {tokens : List Token}
    (hindex : ∀ e ∈ index, e.Within source) (hequals : equals ∈ Token.ofSource source)
    (htokens : Token.AllFrom source tokens) :
    Parses source (fun result => result.1.Within source ∧ Token.AllFrom source result.2)
      (Assignment.readValueOf name index equals tokens) := by
  refine Parses.bind (parses_readValue hequals htokens) fun value hvalue => ⟨?_, hvalue.rest⟩
  exact {
    nameSpan := Token.within_of_mem hname
    index := hindex
    value := hvalue.expr
    span := (Token.within_of_mem hname).merge (Token.within_of_mem hvalue.last) }

theorem Assignment.parses_readElement {opener : Token} {tokens : List Token}
    (hopener : opener ∈ Token.ofSource source) (htokens : Token.AllFrom source tokens) :
    Parses source (fun result => result.1.Within source ∧ Token.AllFrom source result.2)
      (Assignment.readElement name opener tokens) := by
  refine Parses.bind (Group.parses_take "]" hopener htokens) fun g hg => ?_
  refine Parses.bind (Expr.parses_readIndex (Expr.parsesBelow _) (Nat.lt_succ_self _) hopener
    hg.close hg.inside) fun index hindex => ?_
  have hrest := hg.rest
  split
  · rename_i equals rest heq
    rw [heq, Token.AllFrom.cons] at hrest
    split
    · refine Assignment.parses_readValueOf hname ?_ hrest.1 hrest.2
      rintro e ⟨⟩
      exact hindex
    · exact .failAt rfl hrest.1
  · exact .failAt rfl hg.close

theorem CallHead.parses_read {opener : Token} {tokens : List Token}
    (hopener : opener ∈ Token.ofSource source) (htokens : Token.AllFrom source tokens) :
    Parses source (fun head => Expr.AllWithin source head.arguments ∧ head.span.Within source ∧
      Token.AllFrom source head.rest) (CallHead.read name opener tokens) := by
  refine Parses.bind (Group.parses_take ")" hopener htokens) fun g hg => ?_
  refine Parses.bind (Expr.parses_readList (Expr.parsesBelow _) "argument" (Nat.lt_succ_self _)
    hopener hg.inside) fun arguments harguments => ?_
  exact ⟨harguments, (Token.within_of_mem hname).merge (Token.within_of_mem hg.close), hg.rest⟩

end Assignments

/-- The spans of the front of a statement reach from a token to a token. -/
def Front.Within (source : Text) : Front → Prop
  | .whole s => s.Within source
  | .call _ arguments span => Expr.AllWithin source arguments ∧ span.Within source

theorem Front.parses_read {t : Token} {more : List Token}
    (h : Token.AllFrom source (t :: more)) :
    Parses source (fun result => result.1.Within source ∧ Token.AllFrom source result.2)
      (Front.read (t :: more)) := by
  rw [Front.read.eq_def]
  split
  · rename_i head hhead
    exact Parses.bind (Declaration.parses_read (DeclarationHead.from_of_read? hhead h))
      fun result hresult => hresult
  · obtain ⟨ht, hmore⟩ := Token.AllFrom.cons.1 h
    cases more with
    | nil => exact .failAt rfl ht
    | cons next rest =>
      obtain ⟨hnext, hrest⟩ := Token.AllFrom.cons.1 hmore
      simp only
      split
      · exact Parses.bind (Assignment.parses_readValueOf ht (by simp) hnext hrest)
          fun result hresult => hresult
      · split
        · exact Parses.bind (Assignment.parses_readElement ht hnext hrest)
            fun result hresult => hresult
        · split
          · exact Parses.bind (CallHead.parses_read ht hnext hrest)
              fun head hhead => ⟨⟨hhead.1, hhead.2.1⟩, hhead.2.2⟩
          · exact .failAt rfl ht

theorem BlockHead.from_of_read? {tokens : List Token} {head : BlockHead}
    (h : BlockHead.read? tokens = some head) (htokens : Token.AllFrom source tokens) :
    head.first ∈ Token.ofSource source ∧ head.opener ∈ Token.ofSource source ∧
      Token.AllFrom source head.rest := by
  unfold BlockHead.read? at h
  split at h
  · cases h
  · simp only [Token.AllFrom.cons] at htokens
    split at h <;> cases h
    exact ⟨htokens.1, htokens.1, htokens.2⟩
  · simp only [Token.AllFrom.cons] at htokens
    split at h
    · cases h
      exact ⟨htokens.1, htokens.1, Token.AllFrom.cons.2 htokens.2⟩
    · split at h <;> cases h
      exact ⟨htokens.1, htokens.2.1, htokens.2.2⟩

mutual

theorem Stmt.parses_readAll (tokens : List Token) (h : Token.AllFrom source tokens) :
    Parses source (Stmt.AllWithin source) (Stmt.readAll tokens) := by
  match tokens with
  | [] =>
    rw [Stmt.readAll]
    trivial
  | t :: more =>
    rw [Stmt.readAll.eq_def]
    simp only
    split
    · rename_i f hf
      exact (Front.parses_read h).of_error hf
    · rename_i s rest hf
      have hlength := Front.length_rest_read hf
      obtain ⟨hs, hrest⟩ := (Front.parses_read h).of_ok hf
      exact Parses.bind (Stmt.parses_readAll rest hrest) fun others hothers => ⟨hs, hothers⟩
    · rename_i name arguments span rest hf
      have hlength := Front.length_rest_read hf
      obtain ⟨hcall, hrest⟩ := (Front.parses_read h).of_ok hf
      exact Parses.bind (Block.parses_readAll rest hrest)
        fun result hresult => ⟨⟨hcall.1, hresult.1, hcall.2⟩, hresult.2⟩
  termination_by 2 * tokens.length
  decreasing_by all_goals omega

theorem Block.parses_readAll (tokens : List Token) (h : Token.AllFrom source tokens) :
    Parses source (fun result => Block.AllWithin source result.1 ∧ Stmt.AllWithin source result.2)
      (Block.readAll tokens) := by
  rw [Block.readAll.eq_def]
  split
  · exact Parses.bind (Stmt.parses_readAll tokens h) fun others hothers => ⟨trivial, hothers⟩
  · rename_i head hh
    obtain ⟨hfirst, hopener, hrest⟩ := BlockHead.from_of_read? hh h
    split
    · rename_i f hg
      exact (Group.parses_take "\x7d" hopener hrest).of_error hg
    · rename_i g hg
      have hhead := BlockHead.length_rest_read hh
      have hgroup := Group.length_take hg
      have hfrom := (Group.parses_take "\x7d" hopener hrest).of_ok hg
      refine Parses.bind (Stmt.parses_readAll g.inside hfrom.inside) fun body hbody => ?_
      refine Parses.bind (Block.parses_readAll g.rest hfrom.rest) fun result hresult => ?_
      exact ⟨⟨hbody, (Token.within_of_mem hfirst).merge (Token.within_of_mem hfrom.close),
        hresult.1⟩, hresult.2⟩
  termination_by 2 * tokens.length + 1
  decreasing_by all_goals omega

end

/-! ### Programs -/

theorem parses_stripComments (tokens : List Token) (h : Token.AllFrom source tokens) :
    Parses source (Token.AllFrom source) (stripComments tokens) := by
  fun_induction stripComments tokens with
  | case1 => exact List.forall_mem_nil _
  | case2 t rest hopen hs => exact .failAt rfl (h t List.mem_cons_self)
  | case3 t rest hopen after hs ih =>
    obtain ⟨inside, close, -, -, rfl⟩ := skipComment?_eq_some hs
    simp only [Token.AllFrom.cons, Token.AllFrom.append] at h
    exact ih h.2.2.2
  | case4 t rest hopen hclose => exact .failAt rfl (h t List.mem_cons_self)
  | case5 t rest hopen hclose ih =>
    obtain ⟨ht, hrest⟩ := Token.AllFrom.cons.1 h
    exact Parses.bind (ih hrest) fun kept hkept => Token.AllFrom.cons.2 ⟨ht, hkept⟩

/-- The spans of a program reach from a token of its source to a token, and a failure to read
    one is a failure of syntax with such a span. -/
theorem Program.parses_ofSource (source : Text) :
    Parses source (fun p => Stmt.AllWithin source p.statements) (Program.ofSource source) := by
  refine Parses.bind (parses_stripComments _ fun t ht => ht) fun rest hrest => ?_
  exact Parses.bind (Stmt.parses_readAll rest hrest) fun stmts hstmts => hstmts

end Goat
