import Goat.Proofs.Grammar
import Goat.Proofs.Partition
import Goat.Proofs.Reading

/-!
# Programs laid over their tokens

Each part of a program that is read from a source text stands over the tokens that it was read
from, and the parts of that part over tokens among them, one after the other. Its span reaches
from the start of the first of its tokens to the end of the last one; the span of a call leaves
out the blocks.
-/

namespace Goat

/-! ### Rows of tokens -/

/-- The tokens have places in the source, each behind those in front of it. -/
structure Token.Ordered (ts : List Token) : Prop where
  located : ∀ t ∈ ts, t.span.isNone = false ∧ t.span.IsProper
  pairwise : ts.Pairwise fun a b => a.span.EndsBefore b.span

theorem Token.Ordered.sublist {ts ts' : List Token} (h : Token.Ordered ts) (hsub : ts'.Sublist ts) :
    Token.Ordered ts' :=
  ⟨fun t ht => h.located t (hsub.mem ht), h.pairwise.sublist hsub⟩

theorem Token.Ordered.tail {t : Token} {ts : List Token} (h : Token.Ordered (t :: ts)) :
    Token.Ordered ts := h.sublist (List.sublist_cons_self t ts)

theorem Token.Ordered.front {ts us : List Token} (h : Token.Ordered (ts ++ us)) :
    Token.Ordered ts := h.sublist (List.sublist_append_left ts us)

theorem Token.Ordered.back {ts us : List Token} (h : Token.Ordered (ts ++ us)) :
    Token.Ordered us := h.sublist (List.sublist_append_right ts us)

theorem Token.ordered_ofSource (source : Text) : Token.Ordered (Token.ofSource source) where
  located t ht := by
    refine ⟨?_, (Token.within_of_mem ht).proper⟩
    obtain ⟨k, before, after, -, -, hspan⟩ := Token.standsIn_of_mem_ofSource ht
    rw [hspan, Span.isNone, beq_eq_false_iff_ne]
    simp only
    omega
  pairwise := Token.pairwise_ofLinesFrom 1 _

/-- The span reaches from the start of the first token to the end of the last one. -/
def Span.Covers (s : Span) (ts : List Token) : Prop :=
  ∃ first last, ts.head? = some first ∧ ts.getLast? = some last ∧
    s = ⟨first.span.startLine, first.span.startCol, last.span.endLine, last.span.endCol⟩

theorem Token.covers_span (t : Token) : t.span.Covers [t] := ⟨t, t, rfl, rfl, rfl⟩

theorem Span.merge_self (s : Span) : s.merge s = s := by
  simp [Span.merge]

theorem Span.merge_of_endsBefore {a b : Span} (ha : a.isNone = false) (hb : b.isNone = false)
    (hproper : a.IsProper) (hproper' : b.IsProper) (h : a.EndsBefore b) :
    a.merge b = ⟨a.startLine, a.startCol, b.endLine, b.endCol⟩ := by
  rw [Span.IsProper] at hproper hproper'
  rw [Span.EndsBefore] at h
  have hstart : ¬b.startsBefore a = true := by
    rw [Span.startsBefore_iff]
    omega
  have hend : b.endsAfter a = true := by
    rw [Span.endsAfter_iff]
    omega
  simp [Span.merge, ha, hb, hstart, hend]

/-- The spans of the first and the last token of a row together cover it. -/
theorem Token.Ordered.covers_merge {ts : List Token} (h : Token.Ordered ts) {first last : Token}
    (hfirst : ts.head? = some first) (hlast : ts.getLast? = some last) :
    (first.span.merge last.span).Covers ts := by
  refine ⟨first, last, hfirst, hlast, ?_⟩
  obtain ⟨rest, rfl⟩ := List.head?_eq_some_iff.1 hfirst
  cases rest with
  | nil =>
    cases hlast
    exact Span.merge_self _
  | cons t rest =>
    have hmem : last ∈ t :: rest := List.mem_of_getLast? (by rwa [List.getLast?_cons_cons] at hlast)
    obtain ⟨hone, hproper⟩ := h.located first List.mem_cons_self
    obtain ⟨hone', hproper'⟩ := h.located last (List.mem_cons_of_mem _ hmem)
    exact Span.merge_of_endsBefore hone hone' hproper hproper'
      ((List.pairwise_cons.1 h.pairwise).1 last hmem)

theorem getLast?_enclosed (first : Token) (inside : List Token) (last : Token) :
    (first :: (inside ++ [last])).getLast? = some last := by
  rw [← List.cons_append, List.getLast?_concat]

theorem Token.Ordered.covers_enclosed {first last : Token} {inside : List Token}
    (h : Token.Ordered (first :: (inside ++ [last]))) :
    (first.span.merge last.span).Covers (first :: (inside ++ [last])) :=
  h.covers_merge rfl (getLast?_enclosed first inside last)

/-! ### Trees over rows -/

mutual

/-- The expression stands over the tokens. -/
inductive Expr.Over : Expr → List Token → Prop where
  | number {n : Nat} {t : Token} (h : IsNumeralOf n t.value) : Expr.Over (.number n t.span) [t]
  | list {opener close : Token} {items ts span} (ho : opener.value = "[") (hc : close.value = "]")
      (h : Expr.ItemsOver items ts) (hspan : span.Covers (opener :: (ts ++ [close]))) :
      Expr.Over (.list items span) (opener :: (ts ++ [close]))
  | var {t : Token} : Expr.Over (.var t.value t.span) [t]
  | element {name opener close : Token} {index ts span} (ho : opener.value = "[")
      (hc : close.value = "]") (h : Expr.Over index ts)
      (hspan : span.Covers (name :: opener :: (ts ++ [close]))) :
      Expr.Over (.element name.value index span) (name :: opener :: (ts ++ [close]))
  | binary {opener op close : Token} {operator : Operator} {left right ls rs span}
      (ho : opener.value = "(") (hc : close.value = ")") (hop : operator.symbol = op.value)
      (hl : Expr.Over left ls) (hr : Expr.Over right rs)
      (hspan : span.Covers (opener :: (ls ++ op :: rs ++ [close]))) :
      Expr.Over (.binary operator left right span) (opener :: (ls ++ op :: rs ++ [close]))

/-- The expressions stand over the tokens, with commas between them. -/
inductive Expr.ItemsOver : List Expr → List Token → Prop where
  | nil : Expr.ItemsOver [] []
  | single {e ts} (h : Expr.Over e ts) : Expr.ItemsOver [e] ts
  | cons {comma : Token} {e e' rest ts us} (h : Expr.Over e ts) (hc : comma.value = ",")
      (hrest : Expr.ItemsOver (e' :: rest) us) :
      Expr.ItemsOver (e :: e' :: rest) (ts ++ comma :: us)

end

/-- The declaration stands over the tokens. -/
inductive Declaration.Over : Declaration → List Token → Prop where
  | plain {type name equals : Token} {value : Expr} {ts : List Token} {span : Span}
      (he : equals.value = "=") (h : value.Over ts)
      (hspan : span.Covers (type :: name :: equals :: ts)) :
      Declaration.Over ⟨type.value, type.span, none, name.value, name.span, value, span⟩
        (type :: name :: equals :: ts)
  | generic {type less argument greater name equals : Token} {value : Expr} {ts : List Token}
      {span : Span} (hl : less.value = "<") (hg : greater.value = ">") (he : equals.value = "=")
      (h : value.Over ts)
      (hspan : span.Covers (type :: less :: argument :: greater :: name :: equals :: ts)) :
      Declaration.Over ⟨type.value, type.span, some argument, name.value, name.span, value, span⟩
        (type :: less :: argument :: greater :: name :: equals :: ts)

/-- The assignment stands over the tokens. -/
inductive Assignment.Over : Assignment → List Token → Prop where
  | var {name equals : Token} {value : Expr} {ts : List Token} {span : Span}
      (he : equals.value = "=") (h : value.Over ts) (hspan : span.Covers (name :: equals :: ts)) :
      Assignment.Over ⟨name.value, name.span, none, value, span⟩ (name :: equals :: ts)
  | element {name opener close equals : Token} {index value : Expr} {is ts : List Token}
      {span : Span} (ho : opener.value = "[") (hc : close.value = "]") (he : equals.value = "=")
      (hi : index.Over is) (h : value.Over ts)
      (hspan : span.Covers (name :: opener :: (is ++ [close, equals]) ++ ts)) :
      Assignment.Over ⟨name.value, name.span, some index, value, span⟩
        (name :: opener :: (is ++ [close, equals]) ++ ts)

/-- The label of a block stands over the tokens; without any it is the default label. -/
inductive Block.LabelOver : Text → List Token → Prop where
  | written {t : Token} : Block.LabelOver t.value [t]
  | default : Block.LabelOver Block.defaultName []

mutual

/-- The statement stands over the tokens. The span of a call ends at its closing parenthesis. -/
inductive Stmt.Over : Stmt → List Token → Prop where
  | declaration {d ts} (h : d.Over ts) : Stmt.Over (.declaration d) ts
  | assignment {a ts} (h : a.Over ts) : Stmt.Over (.assignment a) ts
  | call {name opener close : Token} {arguments : List Expr} {blocks ts us} {span : Span}
      (ho : opener.value = "(") (hc : close.value = ")") (ha : Expr.ItemsOver arguments ts)
      (hb : Block.AllOver blocks us) (hspan : span.Covers (name :: opener :: (ts ++ [close]))) :
      Stmt.Over (.call name.value arguments blocks span) (name :: opener :: (ts ++ [close]) ++ us)

/-- The blocks of a call stand over the tokens. -/
inductive Block.AllOver : List Block → List Token → Prop where
  | nil : Block.AllOver [] []
  | cons {opener close : Token} {name body rest label ts us} {span : Span}
      (hl : Block.LabelOver name label) (ho : opener.value = "\x7b") (hc : close.value = "\x7d")
      (hb : Stmt.AllOver body ts) (hspan : span.Covers (label ++ opener :: (ts ++ [close])))
      (hrest : Block.AllOver rest us) :
      Block.AllOver (.mk name body span :: rest) (label ++ opener :: (ts ++ [close]) ++ us)

/-- The statements stand over the tokens. -/
inductive Stmt.AllOver : List Stmt → List Token → Prop where
  | nil : Stmt.AllOver [] []
  | cons {s rest ts us} (h : Stmt.Over s ts) (hrest : Stmt.AllOver rest us) :
      Stmt.AllOver (s :: rest) (ts ++ us)

end

/-! ### Reading expressions -/

/-- The expression that was read stands over the tokens in front of those that are left. -/
def Reading.OverFront (reading : Reading) (tokens : List Token) : Prop :=
  ∃ ts, tokens = ts ++ reading.rest ∧ reading.expr.Over ts ∧ ts.getLast? = some reading.last

theorem Reading.OverFront.over {reading : Reading} {tokens : List Token}
    (h : reading.OverFront tokens) (hrest : reading.rest = []) : reading.expr.Over tokens := by
  obtain ⟨ts, rfl, hover, -⟩ := h
  rwa [hrest, List.append_nil]

/-- Every expression read from fewer than `n` tokens stands over those in front. -/
def Expr.OverBelow (n : Nat) : Prop :=
  ∀ tokens reading, tokens.length < n → Token.Ordered tokens →
    Expr.read tokens = .ok (some reading) → reading.OverFront tokens

section Below

variable {n : Nat} (hread : Expr.OverBelow n)
include hread

theorem Expr.over_readWhole {tokens : List Token} (hn : tokens.length < n)
    (hordered : Token.Ordered tokens) {e : Expr} (h : Expr.readWhole tokens = .ok e) :
    e.Over tokens := by
  obtain ⟨last, h⟩ := Expr.exists_read_of_readWhole h
  exact (hread _ _ hn hordered h).over rfl

theorem Expr.over_readIndex {opener close : Token} {tokens : List Token} (hn : tokens.length < n)
    (hordered : Token.Ordered tokens) {e : Expr}
    (h : Expr.readIndex opener close tokens = .ok e) : e.Over tokens := by
  obtain ⟨last, h⟩ := Expr.exists_read_of_readIndex h
  exact (hread _ _ hn hordered h).over rfl

theorem Expr.over_readItems {what : Text} {before : Token} {tokens : List Token}
    (hn : tokens.length < n) (hordered : Token.Ordered tokens) {items : List Expr}
    (h : Expr.readItems what before tokens = .ok items) :
    items ≠ [] ∧ Expr.ItemsOver items tokens := by
  rcases Expr.readItems_eq_ok h with ⟨e, rfl, he⟩ |
    ⟨item, comma, rest, e, others, rfl, hcomma, rfl, he, hothers⟩
  · exact ⟨List.cons_ne_nil e [], .single (Expr.over_readWhole hread hn hordered he)⟩
  · rw [List.length_append, List.length_cons] at hn
    obtain ⟨hne, hover⟩ := Expr.over_readItems (by omega) hordered.back.tail hothers
    obtain ⟨e', others', rfl⟩ := List.exists_cons_of_ne_nil hne
    exact ⟨List.cons_ne_nil e _,
      .cons (Expr.over_readWhole hread (by omega) hordered.front he) hcomma hover⟩
  termination_by tokens.length

theorem Expr.over_readList {what : Text} {opener : Token} {tokens : List Token}
    (hn : tokens.length < n) (hordered : Token.Ordered tokens) {items : List Expr}
    (h : Expr.readList what opener tokens = .ok items) : Expr.ItemsOver items tokens := by
  rw [Expr.readList.eq_def] at h
  split at h
  · cases h
    exact .nil
  · exact (Expr.over_readItems hread hn hordered h).2

end Below

theorem Group.close_take {opener : Token} {closer : Text} {tokens : List Token} {g : Group}
    (h : take opener closer tokens = .ok g) : g.close.value = closer :=
  Option.some.inj (close_takeFrom h)

theorem Expr.overFront_of_overBelow {tokens : List Token} {reading : Reading}
    (hread : Expr.OverBelow tokens.length) (hordered : Token.Ordered tokens)
    (h : Expr.read tokens = .ok (some reading)) : reading.OverFront tokens := by
  cases Expr.readAs_of_read h with
  | @binary t op rest left right g operator l r ht hg hthree hop hl hr =>
    have hlength := Group.length_take hg
    rw [List.length_cons] at hread
    have hleft := length_operand_left hthree
    have hright := length_operand_right hthree
    have hrow : t :: rest = (t :: (left ++ op :: right ++ [g.close])) ++ g.rest := by
      rw [← Group.take_eq_ok hg, eq_of_operands hthree]
      simp
    rw [hrow] at hordered ⊢
    have hall := hordered.front
    have hparts := hall.tail.front
    refine ⟨_, rfl, ?_, getLast?_enclosed _ _ _⟩
    exact .binary ht (Group.close_take hg) (Operator.symbol_of_ofSymbol? hop)
      (Expr.over_readWhole hread (by omega) hparts.front hl)
      (Expr.over_readWhole hread (by omega) hparts.back.tail hr) hall.covers_enclosed
  | @list t rest g items ht hg hitems =>
    have hlength := Group.length_take hg
    rw [List.length_cons] at hread
    have hrow : t :: rest = (t :: (g.inside ++ [g.close])) ++ g.rest := by
      rw [← Group.take_eq_ok hg]
      simp
    rw [hrow] at hordered ⊢
    have hall := hordered.front
    refine ⟨_, rfl, ?_, getLast?_enclosed _ _ _⟩
    exact .list ht (Group.close_take hg)
      (Expr.over_readList hread (by omega) hall.tail.front hitems) hall.covers_enclosed
  | @number t rest n hnumeral hn => exact ⟨[t], rfl, .number (isNumeralOf_readNumber hn), rfl⟩
  | @var t rest hname hrest => exact ⟨[t], rfl, .var, rfl⟩
  | @element t opener more g index hname hopener hg hindex =>
    have hlength := Group.length_take hg
    rw [List.length_cons, List.length_cons] at hread
    have hrow : t :: opener :: more = (t :: opener :: (g.inside ++ [g.close])) ++ g.rest := by
      rw [← Group.take_eq_ok hg]
      simp
    rw [hrow] at hordered ⊢
    have hall := hordered.front
    have hlast := getLast?_enclosed t (opener :: g.inside) g.close
    refine ⟨_, rfl, ?_, hlast⟩
    exact .element hopener (Group.close_take hg)
      (Expr.over_readIndex hread (by omega) hall.tail.tail.front hindex)
      (hall.covers_merge rfl hlast)

theorem Expr.overBelow (n : Nat) : Expr.OverBelow n := by
  induction n with
  | zero =>
    intro tokens reading hn
    cases hn
  | succ n ih =>
    intro tokens reading hn hordered h
    -- What stands between the brackets of an expression is shorter than the expression.
    apply Expr.overFront_of_overBelow _ hordered h
    intro shorter reading' hshorter
    exact ih shorter reading' (by omega)

/-- An expression stands over the tokens that it was read from. -/
theorem Expr.overFront_read {tokens : List Token} {reading : Reading}
    (hordered : Token.Ordered tokens) (h : Expr.read tokens = .ok (some reading)) :
    reading.OverFront tokens :=
  Expr.overFront_of_overBelow (Expr.overBelow _) hordered h

/-! ### Reading statements -/

theorem overFront_readValue {equals : Token} {tokens : List Token} (hordered : Token.Ordered tokens)
    {reading : Reading} (h : readValue equals tokens = .ok reading) : reading.OverFront tokens := by
  obtain ⟨found, hfound, h⟩ := exists_of_bind_eq_ok h
  split at h
  · cases h
    exact Expr.overFront_read hordered hfound
  · split at h <;> cases h

/-- A value and the tokens in front of it are covered from the first of them to its last one. -/
theorem Reading.OverFront.covers {value : Reading} {tokens : List Token} {first : Token}
    (h : value.OverFront tokens) (front : List Token)
    (hordered : Token.Ordered (first :: front ++ tokens)) :
    ∃ ts, first :: front ++ tokens = (first :: front ++ ts) ++ value.rest ∧ value.expr.Over ts ∧
      (first.span.merge value.last.span).Covers (first :: front ++ ts) := by
  obtain ⟨ts, rfl, hover, hlast⟩ := h
  rw [← List.append_assoc] at hordered ⊢
  refine ⟨ts, rfl, hover, hordered.front.covers_merge rfl ?_⟩
  rw [List.getLast?_append, hlast, Option.some_or]

theorem DeclarationHead.read?_eq_some {tokens : List Token} {head : DeclarationHead}
    (h : read? tokens = some head) : head.equals.value = "=" ∧
      ((head.argument = none ∧ tokens = head.type :: head.name :: head.equals :: head.rest) ∨
        ∃ less argument greater : Token, less.value = "<" ∧ greater.value = ">" ∧
          head.argument = some argument ∧ tokens =
            head.type :: less :: argument :: greater :: head.name :: head.equals :: head.rest) := by
  rw [read?.eq_def] at h
  split at h
  · split at h
    · rename_i hgeneric
      cases h
      exact ⟨hgeneric.2.2, .inr ⟨_, _, _, hgeneric.1, hgeneric.2.1, rfl, rfl⟩⟩
    · split at h
      · rename_i hequals
        cases h
        exact ⟨hequals, .inl ⟨rfl, rfl⟩⟩
      · cases h
  · split at h
    · rename_i hequals
      cases h
      exact ⟨hequals, .inl ⟨rfl, rfl⟩⟩
    · cases h
  · cases h

/-- A declaration stands over the tokens in front of those that are left. -/
theorem Declaration.overFront_read {tokens rest : List Token} (hordered : Token.Ordered tokens)
    {head : DeclarationHead} (hhead : DeclarationHead.read? tokens = some head) {d : Declaration}
    (h : Declaration.read head = .ok (d, rest)) : ∃ ts, tokens = ts ++ rest ∧ d.Over ts := by
  obtain ⟨value, hvalue, h⟩ := exists_of_bind_eq_ok h
  cases h
  obtain ⟨type, argument, name, equals, after⟩ := head
  obtain ⟨hequals, ⟨rfl, rfl⟩ | ⟨less, argument', greater, hless, hgreater, rfl, rfl⟩⟩ :=
    DeclarationHead.read?_eq_some hhead
  · have hover := overFront_readValue hordered.tail.tail.tail hvalue
    obtain ⟨ts, hrow, hover, hcovers⟩ := hover.covers [name, equals] hordered
    exact ⟨_, hrow, .plain hequals hover hcovers⟩
  · have hover := overFront_readValue hordered.tail.tail.tail.tail.tail.tail hvalue
    obtain ⟨ts, hrow, hover, hcovers⟩ :=
      hover.covers [less, argument', greater, name, equals] hordered
    exact ⟨_, hrow, .generic hless hgreater hequals hover hcovers⟩

theorem Assignment.overFront_readValueOf {name equals : Token} (hequals : equals.value = "=")
    {tokens rest : List Token} (hordered : Token.Ordered (name :: equals :: tokens))
    {a : Assignment} (h : readValueOf name none equals tokens = .ok (a, rest)) :
    ∃ ts, name :: equals :: tokens = ts ++ rest ∧ a.Over ts := by
  obtain ⟨value, hvalue, h⟩ := exists_of_bind_eq_ok h
  cases h
  have hover := overFront_readValue hordered.tail.tail hvalue
  obtain ⟨ts, hrow, hover, hcovers⟩ := hover.covers [equals] hordered
  exact ⟨_, hrow, .var hequals hover hcovers⟩

theorem Assignment.overFront_readElement {name opener : Token} (hopener : opener.value = "[")
    {tokens rest : List Token} (hordered : Token.Ordered (name :: opener :: tokens))
    {a : Assignment} (h : readElement name opener tokens = .ok (a, rest)) :
    ∃ ts, name :: opener :: tokens = ts ++ rest ∧ a.Over ts := by
  obtain ⟨g, hg, h⟩ := exists_of_bind_eq_ok h
  obtain ⟨index, hindex, h⟩ := exists_of_bind_eq_ok h
  split at h
  · rename_i equals more hrest
    split at h
    · rename_i hequals
      obtain ⟨value, hvalue, h⟩ := exists_of_bind_eq_ok h
      cases h
      have hrow : name :: opener :: tokens =
          name :: (opener :: (g.inside ++ [g.close, equals])) ++ more := by
        rw [← Group.take_eq_ok hg, hrest]
        simp
      rw [hrow] at hordered ⊢
      have hinside := Expr.over_readIndex (Expr.overBelow _) (Nat.lt_succ_self _)
        hordered.front.tail.tail.front hindex
      have hover := overFront_readValue hordered.back hvalue
      obtain ⟨ts, hrow, hover, hcovers⟩ := hover.covers _ hordered
      exact ⟨_, hrow, .element hopener (Group.close_take hg) hequals hinside hover hcovers⟩
    · cases h
  · cases h

/-- The front of a call: its name and its arguments in parentheses. -/
theorem CallHead.overFront_read {name opener : Token} {tokens : List Token}
    (hordered : Token.Ordered (name :: opener :: tokens)) {head : CallHead}
    (h : read name opener tokens = .ok head) : ∃ (ts : List Token) (close : Token),
      close.value = ")" ∧ Expr.ItemsOver head.arguments ts ∧
      head.span.Covers (name :: opener :: (ts ++ [close])) ∧
      name :: opener :: tokens = name :: opener :: (ts ++ [close]) ++ head.rest := by
  obtain ⟨g, hg, h⟩ := exists_of_bind_eq_ok h
  obtain ⟨arguments, harguments, h⟩ := exists_of_bind_eq_ok h
  cases h
  have hrow : name :: opener :: tokens = name :: opener :: (g.inside ++ [g.close]) ++ g.rest := by
    rw [← Group.take_eq_ok hg]
    simp
  rw [hrow] at hordered ⊢
  have hall := hordered.front
  have hcovers := hall.covers_merge rfl (getLast?_enclosed name (opener :: g.inside) g.close)
  refine ⟨g.inside, g.close, Group.close_take hg, ?_, hcovers, rfl⟩
  exact Expr.over_readList (Expr.overBelow _) (Nat.lt_succ_self _) hall.tail.tail.front harguments

theorem BlockHead.read?_eq_some {tokens : List Token} {head : BlockHead}
    (h : read? tokens = some head) : head.opener.value = "\x7b" ∧ ∃ label,
      Block.LabelOver head.name label ∧ tokens = label ++ head.opener :: head.rest ∧
      ∀ row, (label ++ head.opener :: row).head? = some head.first := by
  rw [read?.eq_def] at h
  split at h
  · cases h
  · split at h
    · rename_i ht
      cases h
      exact ⟨ht, [], .default, rfl, fun _ => rfl⟩
    · cases h
  · split at h
    · rename_i ht
      cases h
      exact ⟨ht, [], .default, rfl, fun _ => rfl⟩
    · split at h
      · rename_i hlabel
        cases h
        exact ⟨hlabel.2, _, .written, rfl, fun _ => rfl⟩
      · cases h

mutual

/-- Blocks stand over the tokens in front of those that are left. -/
theorem Block.overFront_readFront (tokens : List Token) (hordered : Token.Ordered tokens)
    {blocks : List Block} {rest : List Token} (h : Block.readFront tokens = .ok (blocks, rest)) :
    ∃ ts, tokens = ts ++ rest ∧ Block.AllOver blocks ts := by
  rcases Block.readFront_cases h with
    ⟨rfl, rfl⟩ | ⟨head, g, body, others, hh, hg, hbody, hothers, hlength, rfl⟩
  · exact ⟨[], rfl, .nil⟩
  · obtain ⟨hopener, label, hlabel, htokens, hfirst⟩ := BlockHead.read?_eq_some hh
    have hrow : tokens = label ++ head.opener :: (g.inside ++ [g.close]) ++ g.rest := by
      rw [htokens, ← Group.take_eq_ok hg]
      simp
    have hwhole := hordered
    rw [hrow] at hwhole
    have hall := hwhole.front
    have hlast : (label ++ head.opener :: (g.inside ++ [g.close])).getLast? = some g.close := by
      rw [← List.cons_append, ← List.append_assoc, List.getLast?_concat]
    -- The body between the braces and the blocks behind them are both shorter than the tokens.
    have hinside := Stmt.over_readAll g.inside hall.back.tail.front hbody
    obtain ⟨us, hus, hblocks⟩ := Block.overFront_readFront g.rest hwhole.back hothers
    refine ⟨_, ?_, .cons hlabel hopener (Group.close_take hg) hinside
      (hall.covers_merge (hfirst _) hlast) hblocks⟩
    rw [hrow, hus, ← List.append_assoc]
  termination_by 2 * tokens.length
  decreasing_by all_goals omega

/-- A statement stands over the tokens in front of those that are left. -/
theorem Stmt.overFront_readFirst (tokens : List Token) (hordered : Token.Ordered tokens)
    {s : Stmt} {rest : List Token} (h : Stmt.readFirst tokens = .ok (s, rest)) :
    ∃ ts, tokens = ts ++ rest ∧ s.Over ts := by
  obtain ⟨⟨front, left⟩, hfront, h⟩ := exists_of_bind_eq_ok h
  have hlength := Front.length_rest_read hfront
  have hafter {blocks rest} (hleft : Token.Ordered left)
      (hblocks : Block.readFront left = .ok (blocks, rest)) :
      ∃ us, left = us ++ rest ∧ Block.AllOver blocks us :=
    Block.overFront_readFront left hleft hblocks
  cases Front.readAs_of_read hfront with
  | declaration hhead hd =>
    cases h
    obtain ⟨ts, hts, hover⟩ := Declaration.overFront_read hordered hhead hd
    exact ⟨ts, hts, .declaration hover⟩
  | value hnone hnext ha =>
    cases h
    obtain ⟨ts, hts, hover⟩ := Assignment.overFront_readValueOf hnext hordered ha
    exact ⟨ts, hts, .assignment hover⟩
  | element hnone hnext ha =>
    cases h
    obtain ⟨ts, hts, hover⟩ := Assignment.overFront_readElement hnext hordered ha
    exact ⟨ts, hts, .assignment hover⟩
  | call hnone hnext hhead =>
    obtain ⟨⟨blocks, left⟩, hblocks, h⟩ := exists_of_bind_eq_ok h
    cases h
    obtain ⟨ts, close, hclose, hover, hcovers, hrow⟩ := CallHead.overFront_read hordered hhead
    rw [hrow] at hordered
    obtain ⟨us, hus, hall⟩ := hafter hordered.back hblocks
    refine ⟨_, ?_, .call hnext hclose hover hall hcovers⟩
    rw [hrow, hus, List.append_assoc]
  termination_by 2 * tokens.length
  decreasing_by omega

/-- Statements stand over the tokens that they were read from. -/
theorem Stmt.over_readAll (tokens : List Token) (hordered : Token.Ordered tokens)
    {stmts : List Stmt} (h : Stmt.readAll tokens = .ok stmts) : Stmt.AllOver stmts tokens := by
  match tokens, h with
  | [], h =>
    rw [Stmt.readAll] at h
    cases h
    exact .nil
  | t :: more, h =>
    rw [Stmt.readAll_cons] at h
    obtain ⟨⟨s, rest⟩, hfirst, h⟩ := exists_of_bind_eq_ok h
    obtain ⟨others, hothers, h⟩ := exists_of_bind_eq_ok h
    cases h
    have hlength := Stmt.length_rest_readFirst hfirst
    obtain ⟨ts, hts, hover⟩ := Stmt.overFront_readFirst (t :: more) hordered hfirst
    rw [hts] at hordered ⊢
    exact .cons hover (Stmt.over_readAll rest hordered.back hothers)
  termination_by 2 * tokens.length + 1
  decreasing_by all_goals omega

end

theorem Uncommented.sublist {tokens kept : List Token} (h : Uncommented tokens kept) :
    kept.Sublist tokens := by
  induction h with
  | nil => exact .slnil
  | keep _ _ _ ih => exact ih.cons_cons _
  | comment _ _ _ _ ih => exact ((ih.cons _).trans (List.sublist_append_right _ _)).cons _

/-- The program of a source text stands over its tokens outside comments. -/
theorem Program.allOver_of_ofSource {source : Text} {p : Program}
    (h : Program.ofSource source = .ok p) : ∃ kept, Uncommented (Token.ofSource source) kept ∧
      Token.Ordered kept ∧ Stmt.AllOver p.statements kept := by
  obtain ⟨kept, hkept, h⟩ := exists_of_bind_eq_ok h
  obtain ⟨stmts, hstmts, h⟩ := exists_of_bind_eq_ok h
  cases h
  have hstrip := uncommented_stripComments _ hkept
  have hordered := (Token.ordered_ofSource source).sublist hstrip.sublist
  exact ⟨kept, hstrip, hordered, Stmt.over_readAll kept hordered hstmts⟩

end Goat
