import Goat.Proofs.TokenLayout

/-!
# Spans nest

In a program from a source text the span of every part lies within the span of what it is a part
of, and parts that stand side by side have spans one after the other, as they stand in the source.
All of this is read off the rows of tokens that the parts stand over: a span covers its row, rows
of parts lie within the row of the whole, and rows of different parts do not meet.
-/

namespace Goat

/-! ### Spans within spans -/

/-- `a` neither starts before `b` nor ends after it. -/
def Span.Inside (a b : Span) : Prop :=
  (b.startLine < a.startLine ∨ b.startLine = a.startLine ∧ b.startCol ≤ a.startCol) ∧
    (a.endLine < b.endLine ∨ a.endLine = b.endLine ∧ a.endCol ≤ b.endCol)

/-- The parts lie within the span and one after the other. -/
structure Span.Holds (s : Span) (parts : List Span) : Prop where
  inside : ∀ part ∈ parts, part.Inside s
  ordered : parts.Pairwise Span.EndsBefore

/-- The span starts where the first of the parts starts and ends where the last one ends. -/
structure Span.Reaches (s : Span) (parts : List Span) : Prop where
  first : ∀ part ∈ parts.head?, s.startLine = part.startLine ∧ s.startCol = part.startCol
  last : ∀ part ∈ parts.getLast?, s.endLine = part.endLine ∧ s.endCol = part.endCol

/-- What reaches from the first of ordered parts to the last one has all of them inside. -/
theorem Span.Reaches.holds {s : Span} {parts : List Span} (h : s.Reaches parts)
    (hproper : ∀ part ∈ parts, part.IsProper) (hordered : parts.Pairwise Span.EndsBefore) :
    s.Holds parts := by
  refine ⟨fun part hpart => ⟨?_, ?_⟩, hordered⟩
  · obtain ⟨first, rest, rfl⟩ := List.exists_cons_of_ne_nil (List.ne_nil_of_mem hpart)
    obtain ⟨hline, hcol⟩ := h.first first rfl
    rcases List.mem_cons.1 hpart with rfl | hrest
    · omega
    · have hbefore := (List.pairwise_cons.1 hordered).1 part hrest
      have hfirst := hproper first List.mem_cons_self
      rw [Span.EndsBefore] at hbefore
      rw [Span.IsProper] at hfirst
      omega
  · have hlast := List.getLast?_eq_some_getLast (List.ne_nil_of_mem hpart)
    generalize parts.getLast _ = last at hlast
    obtain ⟨hline, hcol⟩ := h.last last hlast
    obtain ⟨front, rfl⟩ := List.getLast?_eq_some_iff.1 hlast
    rcases List.mem_append.1 hpart with hfront | hlast
    · have hbefore := (List.pairwise_append.1 hordered).2.2 part hfront last List.mem_cons_self
      have hone := hproper last (List.mem_append_right _ List.mem_cons_self)
      rw [Span.EndsBefore] at hbefore
      rw [Span.IsProper] at hone
      omega
    · obtain rfl := List.mem_singleton.1 hlast
      omega

/-- The spans cover rows of the tokens, one row after the other. -/
inductive Span.Laid : List Span → List Token → Prop where
  | nil : Span.Laid [] []
  | skip {t : Token} {spans ts} (h : Span.Laid spans ts) : Span.Laid spans (t :: ts)
  | cover {s : Span} {spans row ts} (h : s.Covers row) (hrest : Span.Laid spans ts) :
      Span.Laid (s :: spans) (row ++ ts)

namespace Span.Laid

theorem token {t : Token} {spans : List Span} {ts : List Token} (h : Laid spans ts) :
    Laid (t.span :: spans) (t :: ts) := .cover t.covers_span h

theorem single {s : Span} {ts : List Token} (h : s.Covers ts) : Laid [s] ts := by
  have hlaid : Laid [s] (ts ++ []) := .cover h .nil
  rwa [List.append_nil] at hlaid

theorem append {spans spans' : List Span} {ts us : List Token} (h : Laid spans ts)
    (h' : Laid spans' us) : Laid (spans ++ spans') (ts ++ us) := by
  induction h with
  | nil => exact h'
  | skip _ ih => exact .skip ih
  | cover hs _ ih =>
    rw [List.cons_append, List.append_assoc]
    exact .cover hs ih

theorem behind {spans : List Span} {ts : List Token} (us : List Token) (h : Laid spans ts) :
    Laid spans (us ++ ts) := by
  induction us with
  | nil => exact h
  | cons u us ih => exact .skip ih

theorem before {spans : List Span} {ts : List Token} (h : Laid spans ts) (us : List Token) :
    Laid spans (ts ++ us) := by
  have hboth := h.append (.behind us .nil)
  rwa [List.append_nil, List.append_nil] at hboth

theorem exists_row {spans : List Span} {ts : List Token} (h : Laid spans ts) {s : Span}
    (hs : s ∈ spans) : ∃ row, s.Covers row ∧ row.Sublist ts := by
  induction h with
  | nil => cases hs
  | skip _ ih =>
    obtain ⟨row, hrow, hsub⟩ := ih hs
    exact ⟨row, hrow, hsub.cons _⟩
  | @cover s' spans row ts hcovers _ ih =>
    rcases List.mem_cons.1 hs with rfl | hs
    · exact ⟨row, hcovers, List.sublist_append_left row ts⟩
    · obtain ⟨row', hrow, hsub⟩ := ih hs
      exact ⟨row', hrow, hsub.trans (List.sublist_append_right row ts)⟩

end Span.Laid

theorem Token.Ordered.inside_of_covers {ts : List Token} (hordered : Token.Ordered ts) {s : Span}
    (h : s.Covers ts) {t : Token} (ht : t ∈ ts) : t.span.Inside s := by
  have hreaches : s.Reaches (ts.map Token.span) := by
    obtain ⟨first, last, hfirst, hlast, rfl⟩ := h
    constructor
    · simp [hfirst]
    · simp [hlast]
  have hproper : ∀ part ∈ ts.map Token.span, part.IsProper := by
    intro part hpart
    obtain ⟨t, ht, rfl⟩ := List.mem_map.1 hpart
    exact (hordered.located t ht).2
  have hholds := hreaches.holds hproper (List.pairwise_map.2 hordered.pairwise)
  exact hholds.inside t.span (List.mem_map_of_mem ht)

namespace Span.Covers

variable {s s' : Span} {ts us : List Token}

theorem first_mem (h : s.Covers ts) :
    ∃ first ∈ ts, s.startLine = first.span.startLine ∧ s.startCol = first.span.startCol := by
  obtain ⟨first, last, hfirst, -, rfl⟩ := h
  exact ⟨first, List.mem_of_head? hfirst, rfl, rfl⟩

theorem last_mem (h : s.Covers ts) :
    ∃ last ∈ ts, s.endLine = last.span.endLine ∧ s.endCol = last.span.endCol := by
  obtain ⟨first, last, -, hlast, rfl⟩ := h
  exact ⟨last, List.mem_of_getLast? hlast, rfl, rfl⟩

/-- What covers a row of an ordered row's tokens lies within what covers all of them. -/
theorem inside (hordered : Token.Ordered ts) (h : s.Covers ts) (h' : s'.Covers us)
    (hsub : us.Sublist ts) : s'.Inside s := by
  obtain ⟨first, hfirst, hline, hcol⟩ := h'.first_mem
  obtain ⟨last, hlast, hline', hcol'⟩ := h'.last_mem
  rw [Span.Inside, hline, hcol, hline', hcol']
  exact ⟨(hordered.inside_of_covers h (hsub.mem hfirst)).1,
    (hordered.inside_of_covers h (hsub.mem hlast)).2⟩

/-- Spans of rows that follow each other follow each other. -/
theorem endsBefore (hordered : Token.Ordered (ts ++ us)) (h : s.Covers ts) (h' : s'.Covers us) :
    s.EndsBefore s' := by
  obtain ⟨last, hlast, hline, hcol⟩ := h.last_mem
  obtain ⟨first, hfirst, hline', hcol'⟩ := h'.first_mem
  rw [Span.EndsBefore, hline, hcol, hline', hcol']
  exact (List.pairwise_append.1 hordered.pairwise).2.2 last hlast first hfirst

theorem located (hordered : Token.Ordered ts) (h : s.Covers ts) :
    s.isNone = false ∧ s.IsProper := by
  obtain ⟨first, hfirst, hline, hcol⟩ := h.first_mem
  obtain ⟨hone, hproper⟩ := hordered.located first hfirst
  obtain ⟨-, hend⟩ := hordered.inside_of_covers h hfirst
  constructor
  · rw [Span.isNone, hline]
    exact hone
  · rw [Span.IsProper] at hproper ⊢
    omega

end Span.Covers

namespace Span.Laid

variable {spans : List Span} {ts : List Token}

theorem pairwise (hordered : Token.Ordered ts) (h : Laid spans ts) :
    spans.Pairwise Span.EndsBefore := by
  induction h with
  | nil => exact .nil
  | skip _ ih => exact ih hordered.tail
  | cover hcovers hrest ih =>
    refine List.pairwise_cons.2 ⟨?_, ih hordered.back⟩
    intro s' hs'
    -- The row of every later span lies among the tokens behind the first row.
    obtain ⟨row, hrow, hsub⟩ := hrest.exists_row hs'
    exact hcovers.endsBefore (hordered.sublist (hsub.append_left _)) hrow

theorem located (hordered : Token.Ordered ts) (h : Laid spans ts) :
    ∀ s ∈ spans, s.isNone = false ∧ s.IsProper := by
  intro s hs
  obtain ⟨row, hrow, hsub⟩ := h.exists_row hs
  exact hrow.located (hordered.sublist hsub)

/-- What covers the tokens holds the spans that are laid over them. -/
theorem holds (hordered : Token.Ordered ts) (h : Laid spans ts) {s : Span} (hs : s.Covers ts) :
    s.Holds spans where
  inside part hpart := by
    obtain ⟨row, hrow, hsub⟩ := h.exists_row hpart
    exact hs.inside hordered hrow hsub
  ordered := h.pairwise hordered

end Span.Laid

/-! ### Merging spans in order -/

/-- Merging one span after the other moves the end to the end of the last one. -/
theorem Span.foldl_merge {spans : List Span} (hspans : ∀ s ∈ spans, s.isNone = false ∧ s.IsProper)
    (hordered : spans.Pairwise Span.EndsBefore) {start : Span} (hone : start.isNone = false)
    (hproper : start.IsProper) (hstart : ∀ s ∈ spans, start.EndsBefore s) :
    let last := spans.getLast?.getD start
    spans.foldl Span.merge start =
      ⟨start.startLine, start.startCol, last.endLine, last.endCol⟩ := by
  induction spans generalizing start with
  | nil => rfl
  | cons s rest ih =>
    obtain ⟨⟨hone', hproper'⟩, hrest⟩ := List.forall_mem_cons.1 hspans
    obtain ⟨hs, hordered⟩ := List.pairwise_cons.1 hordered
    have hbefore := hstart s List.mem_cons_self
    -- The span so far and `s` together start where the former does and end where `s` does.
    have hjoined : Span.isNone ⟨start.startLine, start.startCol, s.endLine, s.endCol⟩ = false :=
      hone
    have hlonger : Span.IsProper ⟨start.startLine, start.startCol, s.endLine, s.endCol⟩ := by
      rw [Span.EndsBefore] at hbefore
      rw [Span.IsProper] at hproper hproper' ⊢
      simp only
      omega
    rw [List.foldl_cons, Span.merge_of_endsBefore hone hone' hproper hproper' hbefore,
      List.getLast?_cons]
    refine (ih hrest hordered hjoined hlonger hs).trans ?_
    cases rest.getLast? <;> rfl

/-- Merged in their order, spans give one that reaches from the first to the last. -/
theorem Span.reaches_merge {spans : List Span}
    (hspans : ∀ s ∈ spans, s.isNone = false ∧ s.IsProper)
    (hordered : spans.Pairwise Span.EndsBefore) :
    (spans.foldl Span.merge Span.none).Reaches spans := by
  cases spans with
  | nil => exact ⟨by simp, by simp⟩
  | cons s rest =>
    obtain ⟨⟨hone, hproper⟩, hrest⟩ := List.forall_mem_cons.1 hspans
    obtain ⟨hs, hordered⟩ := List.pairwise_cons.1 hordered
    have hmerge : Span.none.merge s = s := rfl
    rw [List.foldl_cons, hmerge, Span.foldl_merge hrest hordered hone hproper hs]
    constructor
    · simp
    · simp [List.getLast?_cons]

/-! ### Parts side by side -/

/-- The spans of what stands side by side in a declaration. -/
def Declaration.partSpans (d : Declaration) : List Span :=
  d.typeSpan :: (d.argument.toList.map Token.span ++ [d.nameSpan, d.value.span])

/-- The spans of what stands side by side in an assignment. -/
def Assignment.partSpans (a : Assignment) : List Span :=
  a.nameSpan :: (a.index.toList.map Expr.span ++ [a.value.span])

/-- The span of a statement, and those of its blocks, which stand behind it. -/
def Stmt.spans : Stmt → List Span
  | .call _ _ blocks span => span :: blocks.map Block.span
  | s => [s.span]

theorem Expr.Over.covers {e : Expr} {ts : List Token} (h : e.Over ts) : e.span.Covers ts := by
  cases h with
  | number => exact Token.covers_span _
  | var => exact Token.covers_span _
  | list _ _ _ hspan => exact hspan
  | element _ _ _ hspan => exact hspan
  | binary _ _ _ _ _ hspan => exact hspan

theorem Expr.ItemsOver.laid : {items : List Expr} → {ts : List Token} →
    Expr.ItemsOver items ts → Span.Laid (items.map Expr.span) ts
  | _, _, .nil => .nil
  | _, _, .single h => .single h.covers
  | _, _, .cons h _ hrest => .cover h.covers (.skip hrest.laid)

theorem Declaration.Over.covers {d : Declaration} {ts : List Token} (h : d.Over ts) :
    d.span.Covers ts := by
  cases h <;> assumption

theorem Declaration.Over.laid {d : Declaration} {ts : List Token} (h : d.Over ts) :
    Span.Laid d.partSpans ts := by
  cases h with
  | plain _ hvalue _ => exact .token (.token (.skip (.single hvalue.covers)))
  | generic _ _ _ hvalue _ =>
    exact .token (.skip (.token (.skip (.token (.skip (.single hvalue.covers))))))

theorem Assignment.Over.covers {a : Assignment} {ts : List Token} (h : a.Over ts) :
    a.span.Covers ts := by
  cases h <;> assumption

theorem Assignment.Over.laid {a : Assignment} {ts : List Token} (h : a.Over ts) :
    Span.Laid a.partSpans ts := by
  cases h with
  | var _ hvalue _ => exact .token (.skip (.single hvalue.covers))
  | element _ _ _ hindex hvalue _ =>
    refine .token (.skip ?_)
    exact ((Span.Laid.single hindex.covers).before _).append (.single hvalue.covers)

theorem Block.AllOver.laid : {blocks : List Block} → {ts : List Token} →
    Block.AllOver blocks ts → Span.Laid (blocks.map Block.span) ts
  | _, _, .nil => .nil
  | _, _, .cons _ _ _ _ hspan hrest => .cover hspan hrest.laid

theorem Stmt.Over.laid {s : Stmt} {ts : List Token} (h : s.Over ts) : Span.Laid s.spans ts := by
  cases h with
  | declaration h => exact .single h.covers
  | assignment h => exact .single h.covers
  | call _ _ _ hblocks hspan => exact .cover hspan hblocks.laid

theorem Stmt.AllOver.laid : {stmts : List Stmt} → {ts : List Token} →
    Stmt.AllOver stmts ts → Span.Laid (stmts.flatMap Stmt.spans) ts
  | _, _, .nil => .nil
  | _, _, .cons h hrest => by
    rw [List.flatMap_cons]
    exact h.laid.append hrest.laid

/-! ### Nested spans -/

mutual

/-- Every expression in it holds the spans of its parts. -/
def Expr.SpansNest : Expr → Prop
  | .number _ _ => True
  | .var _ _ => True
  | .list items span => span.Holds (items.map Expr.span) ∧ Expr.AllSpansNest items
  | .element _ index span => span.Holds [index.span] ∧ index.SpansNest
  | .binary _ left right span =>
    span.Holds [left.span, right.span] ∧ left.SpansNest ∧ right.SpansNest

def Expr.AllSpansNest : List Expr → Prop
  | [] => True
  | e :: rest => e.SpansNest ∧ Expr.AllSpansNest rest

end

mutual

/-- Every statement and expression in it holds the spans of its parts; the blocks of a call stand
    behind it, one after the other, and each of them holds the spans of its statements and of
    their blocks. -/
def Stmt.SpansNest : Stmt → Prop
  | .declaration d => d.span.Holds d.partSpans ∧ d.value.SpansNest
  | .assignment a =>
    a.span.Holds a.partSpans ∧ Expr.AllSpansNest a.index.toList ∧ a.value.SpansNest
  | .call _ arguments blocks span =>
    span.Holds (arguments.map Expr.span) ∧ Expr.AllSpansNest arguments ∧
      (span :: blocks.map Block.span).Pairwise Span.EndsBefore ∧ Block.AllSpansNest blocks

def Block.AllSpansNest : List Block → Prop
  | [] => True
  | .mk _ body span :: rest =>
    span.Holds (body.flatMap Stmt.spans) ∧ Stmt.AllSpansNest body ∧ Block.AllSpansNest rest

def Stmt.AllSpansNest : List Stmt → Prop
  | [] => True
  | s :: rest => s.SpansNest ∧ Stmt.AllSpansNest rest

end

mutual

theorem Expr.Over.spansNest : {e : Expr} → {ts : List Token} → e.Over ts → Token.Ordered ts →
    e.SpansNest
  | _, _, .number _, _ => trivial
  | _, _, .var, _ => trivial
  | _, _, .list _ _ h hspan, hordered =>
    ⟨Span.Laid.holds hordered (.skip (h.laid.before _)) hspan, h.allSpansNest hordered.tail.front⟩
  | _, _, .element _ _ h hspan, hordered =>
    ⟨Span.Laid.holds hordered (.skip (.skip ((Span.Laid.single h.covers).before _))) hspan,
      h.spansNest hordered.tail.tail.front⟩
  | _, _, .binary _ _ _ hl hr hspan, hordered => by
    have hparts := hordered.tail.front
    refine ⟨Span.Laid.holds hordered (.skip (.before ?_ _)) hspan, hl.spansNest hparts.front,
      hr.spansNest hparts.back.tail⟩
    exact .cover hl.covers (.skip (.single hr.covers))

theorem Expr.ItemsOver.allSpansNest : {items : List Expr} → {ts : List Token} →
    Expr.ItemsOver items ts → Token.Ordered ts → Expr.AllSpansNest items
  | _, _, .nil, _ => trivial
  | _, _, .single h, hordered => ⟨h.spansNest hordered, trivial⟩
  | _, _, .cons h _ hrest, hordered =>
    ⟨h.spansNest hordered.front, hrest.allSpansNest hordered.back.tail⟩

end

theorem Declaration.Over.value_spansNest {d : Declaration} {ts : List Token} (h : d.Over ts)
    (hordered : Token.Ordered ts) : d.value.SpansNest := by
  cases h with
  | plain _ hvalue _ => exact hvalue.spansNest hordered.tail.tail.tail
  | generic _ _ _ hvalue _ => exact hvalue.spansNest hordered.tail.tail.tail.tail.tail.tail

theorem Assignment.Over.parts_spansNest {a : Assignment} {ts : List Token} (h : a.Over ts)
    (hordered : Token.Ordered ts) :
    Expr.AllSpansNest a.index.toList ∧ a.value.SpansNest := by
  cases h with
  | var _ hvalue _ => exact ⟨trivial, hvalue.spansNest hordered.tail.tail⟩
  | element _ _ _ hindex hvalue _ =>
    exact ⟨⟨hindex.spansNest hordered.front.tail.tail.front, trivial⟩,
      hvalue.spansNest hordered.back⟩

mutual

theorem Stmt.Over.spansNest : {s : Stmt} → {ts : List Token} → s.Over ts → Token.Ordered ts →
    s.SpansNest
  | _, _, .declaration h, hordered => ⟨h.laid.holds hordered h.covers, h.value_spansNest hordered⟩
  | _, _, .assignment h, hordered => ⟨h.laid.holds hordered h.covers, h.parts_spansNest hordered⟩
  | _, _, .call _ _ ha hb hspan, hordered =>
    ⟨Span.Laid.holds hordered.front (.skip (.skip (ha.laid.before _))) hspan,
      ha.allSpansNest hordered.front.tail.tail.front,
      Span.Laid.pairwise hordered (.cover hspan hb.laid), hb.allSpansNest hordered.back⟩

theorem Block.AllOver.allSpansNest : {blocks : List Block} → {ts : List Token} →
    Block.AllOver blocks ts → Token.Ordered ts → Block.AllSpansNest blocks
  | _, _, .nil, _ => trivial
  | _, _, .cons _ _ _ hb hspan hrest, hordered =>
    ⟨Span.Laid.holds hordered.front (.behind _ (.skip (hb.laid.before _))) hspan,
      hb.allSpansNest hordered.front.back.tail.front, hrest.allSpansNest hordered.back⟩

theorem Stmt.AllOver.allSpansNest : {stmts : List Stmt} → {ts : List Token} →
    Stmt.AllOver stmts ts → Token.Ordered ts → Stmt.AllSpansNest stmts
  | _, _, .nil, _ => trivial
  | _, _, .cons h hrest, hordered =>
    ⟨h.spansNest hordered.front, hrest.allSpansNest hordered.back⟩

end

/-! ### Programs -/

theorem Stmt.span_mem_spans (s : Stmt) : s.span ∈ s.spans := by
  cases s <;> exact List.mem_cons_self

theorem Stmt.map_span_sublist (stmts : List Stmt) :
    (stmts.map Stmt.span).Sublist (stmts.flatMap Stmt.spans) := by
  induction stmts with
  | nil => exact .slnil
  | cons s rest ih =>
    rw [List.map_cons, List.flatMap_cons]
    exact (List.singleton_sublist.2 s.span_mem_spans).append ih

/-- In a program from a source text every part has the span of its tokens outside comments, spans
    nest as the parts do, and parts side by side have spans one after the other. The span of the
    program is that of its statements put together. -/
theorem Program.spans_nest {source : Text} {p : Program} (h : Program.ofSource source = .ok p) :
    (∃ kept, Uncommented (Token.ofSource source) kept ∧ Stmt.AllOver p.statements kept) ∧
      Stmt.AllSpansNest p.statements ∧
      (p.statements.flatMap Stmt.spans).Pairwise Span.EndsBefore ∧
      p.span = (p.statements.map Stmt.span).foldl Span.merge Span.none ∧
      p.span.Reaches (p.statements.map Stmt.span) ∧ p.span.Holds (p.statements.map Stmt.span) := by
  obtain ⟨kept, hkept, hordered, hover⟩ := Program.allOver_of_ofSource h
  have hall := hover.laid.pairwise hordered
  have hpairwise := hall.sublist (Stmt.map_span_sublist p.statements)
  have hlocated : ∀ s ∈ p.statements.map Stmt.span, s.isNone = false ∧ s.IsProper := by
    intro s hs
    exact hover.laid.located hordered s ((Stmt.map_span_sublist p.statements).mem hs)
  have hspan : p.span = (p.statements.map Stmt.span).foldl Span.merge Span.none := by
    rw [Program.span, List.foldl_map]
  have hreaches := Span.reaches_merge hlocated hpairwise
  rw [← hspan] at hreaches
  exact ⟨⟨kept, hkept, hover⟩, hover.allSpansNest hordered, hall, hspan, hreaches,
    hreaches.holds (fun s hs => (hlocated s hs).2) hpairwise⟩

/-- Statements over several lines; the last one is a call with blocks behind it. -/
def Program.spreadSource : Text :=
  "Int i = 2 /* low\n( */ k[(i + 1)] =\n  [i]\nif(i, k[0]) \x7b i = 1\nprint(i) \x7d\nelse \x7b\x7d"

theorem Program.spans_nest_spread : ∃ p, Program.ofSource Program.spreadSource = .ok p ∧
    p.span = ⟨1, 0, 4, 11⟩ ∧
    (∃ kept, Uncommented (Token.ofSource Program.spreadSource) kept ∧
      Stmt.AllOver p.statements kept) ∧
    Stmt.AllSpansNest p.statements ∧
    (p.statements.flatMap Stmt.spans).Pairwise Span.EndsBefore ∧
    p.span = (p.statements.map Stmt.span).foldl Span.merge Span.none ∧
    p.span.Reaches (p.statements.map Stmt.span) ∧ p.span.Holds (p.statements.map Stmt.span) := by
  have hread : (Program.ofSource Program.spreadSource).toOption.any
      (fun p => decide (p.span = ⟨1, 0, 4, 11⟩)) = true := by decide +kernel
  obtain ⟨p, hp, hspan⟩ := exists_ok_of_any hread
  exact ⟨p, hp, of_decide_eq_true hspan, Program.spans_nest hp⟩

end Goat
