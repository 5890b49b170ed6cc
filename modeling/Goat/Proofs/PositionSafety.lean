import Goat.Proofs.ExprPositions

/-!
# Reading by positions never faults

The reader that goes by positions reads what the reader of token lists reads, whatever the
tokens. As it has a result, or a failure of syntax, on every input, none of its checks ever
fails. No position is outside the tokens, every step goes forward, and the parts are read from
smaller ranges.
-/

namespace Goat

/-- The value of the token at a place in a row, or nothing behind the row. -/
def valueOf (tokens : List Token) (n : Nat) : Text := ((tokens[n]?).map Token.value).getD []

/-- The tokens give a type argument, a name and an equals sign after the first of them. -/
def Generic (tokens : List Token) : Prop :=
  valueOf tokens 1 = "<" ∧ valueOf tokens 3 = ">" ∧ valueOf tokens 5 = "="

instance (tokens : List Token) : Decidable (Generic tokens) := by
  unfold Generic
  infer_instance

/-- What the head of a declaration is, by the values a few tokens ahead. -/
theorem DeclarationHead.read?_cases (tokens : List Token) :
    (Generic tokens ∧ ∃ type a b c d e rest, tokens = type :: a :: b :: c :: d :: e :: rest ∧
      read? tokens = some ⟨type, some b, d, e, rest⟩) ∨
    (¬Generic tokens ∧ valueOf tokens 2 = "=" ∧ ∃ type name equals rest,
      tokens = type :: name :: equals :: rest ∧
      read? tokens = some ⟨type, none, name, equals, rest⟩) ∨
    (¬Generic tokens ∧ valueOf tokens 2 ≠ "=" ∧ read? tokens = none) := by
  match tokens with
  | type :: a :: b :: c :: d :: e :: rest =>
    rw [read?]
    split
    · rename_i hgeneric
      exact .inl ⟨hgeneric, type, a, b, c, d, e, rest, rfl, rfl⟩
    · rename_i hplain
      split
      · rename_i hequals
        exact .inr (.inl ⟨hplain, hequals, type, a, b, _, rfl, rfl⟩)
      · rename_i hother
        exact .inr (.inr ⟨hplain, hother, rfl⟩)
  | [] | [_] | [_, _] =>
    have hplain : valueOf [] 5 ≠ "=" := by decide
    exact .inr (.inr ⟨fun h => hplain h.2.2, hplain, rfl⟩)
  | [type, name, equals] | [type, name, equals, _] | [type, name, equals, _, _] =>
    have hplain : valueOf [] 5 ≠ "=" := by decide
    rw [read?]
    split
    · rename_i hequals
      exact .inr (.inl ⟨fun h => hplain h.2.2, hequals, type, name, equals, _, rfl, rfl⟩)
    · rename_i hother
      exact .inr (.inr ⟨fun h => hplain h.2.2, hother, rfl⟩)
    all_goals simp

namespace Positional

section Statements

variable {tokens : List Token} {i stop : Nat}

theorem slice_add (tokens : List Token) (i stop n : Nat) :
    slice tokens (i + n) stop = (slice tokens i stop).drop n := by
  rw [slice, slice, List.drop_drop]

theorem valueAt_add (hstop : stop ≤ tokens.length) (n : Nat) :
    valueAt tokens (i + n) stop = pure (valueOf (slice tokens i stop) n) := by
  cases hslice : slice tokens (i + n) stop with
  | nil =>
    rw [valueAt_of_nil hstop hslice, valueOf]
    rw [slice_add, List.drop_eq_nil_iff] at hslice
    rw [List.getElem?_eq_none hslice]
    rfl
  | cons t rest =>
    rw [valueAt_of_cons hslice, valueOf]
    have hhead := congrArg List.head? hslice
    rw [slice_add, List.head?_drop] at hhead
    rw [hhead]
    rfl

theorem getElem?_of_slice {n : Nat} {t : Token} (h : (slice tokens i stop)[n]? = some t) :
    i + n < stop ∧ tokens[i + n]? = some t := by
  have hdrop : (slice tokens (i + n) stop).head? = some t := by
    rw [slice_add, List.head?_drop]
    exact h
  obtain ⟨rest, hslice⟩ := List.head?_eq_some_iff.1 hdrop
  obtain ⟨hlt, ht, -⟩ := of_slice_eq_cons hslice
  exact ⟨hlt, ht⟩

theorem takesArgument_eq (hstop : stop ≤ tokens.length) :
    takesArgument tokens i stop = pure (decide (Generic (slice tokens i stop))) := by
  simp only [takesArgument, valueAt_add hstop, pure_bind]
  congr

/-- The reader by positions read the same statement and got as far. -/
structure Passed (tokens : List Token) (i stop : Nat) {α : Type} (p : α × Nat)
    (q : α × List Token) : Prop where
  eq : p.1 = q.1
  rest : q.2 = slice tokens p.2 stop
  lt : i < p.2
  le : p.2 ≤ stop

theorem spanUpTo_eq {r : TokenRange} {e : Expr} {next : Nat} {reading : Reading} {t : Token}
    (ht : tokens[i]? = some t) (h : Reached tokens r e next reading) :
    spanUpTo tokens i next = pure (t.span.merge reading.last.span) := by
  obtain ⟨j, rfl, hlast⟩ := h.last
  rw [spanUpTo, tokenAt_eq ht, pure_bind, tokenBefore, tokenAt_eq hlast, pure_bind]

variable (hmarks : ∀ t ∈ tokens, t.value ≠ "/*" ∧ t.value ≠ "*/")

include hmarks

/-- After its head, whose equals sign is at `equals`, a declaration is read from its value. -/
theorem matches_declared (hstop : stop ≤ tokens.length) {equals : Nat} (hlt : i < equals)
    (head : DeclarationHead) (htype : tokens[i]? = some head.type)
    (hequals : tokens[equals]? = some head.equals)
    (hrest : slice tokens (equals + 1) stop = head.rest) :
    Matches (Passed tokens i stop)
      (do
        let (value, next) ← readValue tokens equals stop
        let span ← spanUpTo tokens i next
        return (Stmt.declaration ⟨head.type.value, head.type.span, head.argument, head.name.value,
          head.name.span, value, span⟩, next))
      (do
        let (declaration, rest) ← Declaration.read head
        return (Stmt.declaration declaration, rest)) := by
  rw [Declaration.read, bind_assoc, ← hrest]
  refine (matches_readValue hmarks hstop hequals).bind ?_
  rintro ⟨e, next⟩ reading h
  simp only [spanUpTo_eq htype h, pure_bind]
  obtain rfl : e = reading.expr := h.expr
  have hpast : equals + 1 < next := h.lt
  refine .pure ⟨rfl, h.rest, ?_, h.le⟩
  simp only
  omega

theorem matches_readDeclaration (hstop : stop ≤ tokens.length) {head : DeclarationHead}
    (hhead : DeclarationHead.read? (slice tokens i stop) = some head) :
    Matches (Passed tokens i stop) (readDeclaration tokens i stop) (do
      let (declaration, rest) ← Declaration.read head
      return (.declaration declaration, rest)) := by
  have hplace {n : Nat} {t : Token} (h : (slice tokens i stop)[n]? = some t) :=
    (getElem?_of_slice h).2
  rw [readDeclaration, takesArgument_eq hstop]
  rcases DeclarationHead.read?_cases (slice tokens i stop) with
    ⟨hgeneric, type, a, b, c, d, e, rest, hslice, h⟩ |
    ⟨hplain, -, type, name, equals, rest, hslice, h⟩ | ⟨-, -, h⟩
  · cases h.symm.trans hhead
    rw [hslice] at hplace
    have htype : tokens[i]? = some type := hplace (n := 0) rfl
    have hrest : slice tokens (i + 5 + 1) stop = rest := by
      rw [slice_add tokens i stop 6, hslice]
      rfl
    simp only [tokenAt_eq htype, hgeneric, decide_true, if_true,
      tokenAt_eq (hplace (n := 2) rfl), tokenAt_eq (hplace (n := 4) rfl), pure_bind, map_pure]
    exact matches_declared hmarks hstop (show i < i + 5 by omega) ⟨type, some b, d, e, rest⟩ htype
      (hplace (n := 5) rfl) hrest
  · cases h.symm.trans hhead
    rw [hslice] at hplace
    have htype : tokens[i]? = some type := hplace (n := 0) rfl
    have hrest : slice tokens (i + 2 + 1) stop = rest := by
      rw [slice_add tokens i stop 3, hslice]
      rfl
    simp only [tokenAt_eq htype, hplain, decide_false, Bool.false_eq_true, if_false,
      tokenAt_eq (hplace (n := 1) rfl), pure_bind]
    exact matches_declared hmarks hstop (show i < i + 2 by omega) ⟨type, none, name, equals, rest⟩
      htype (hplace (n := 2) rfl) hrest
  · cases h.symm.trans hhead

theorem matches_readAssigned (hstop : stop ≤ tokens.length) {equals : Nat} (hlt : i < equals)
    {name t : Token} (hname : tokens[i]? = some name) (ht : tokens[equals]? = some t)
    (index : Option Expr) :
    Matches (Passed tokens i stop) (readAssigned tokens name i equals stop index) (do
      let (assignment, rest) ← Assignment.readValueOf name index t (slice tokens (equals + 1) stop)
      return (.assignment assignment, rest)) := by
  rw [readAssigned, Assignment.readValueOf, bind_assoc]
  refine (matches_readValue hmarks hstop ht).bind ?_
  rintro ⟨e, next⟩ reading h
  simp only [spanUpTo_eq hname h, pure_bind]
  obtain rfl : e = reading.expr := h.expr
  have hpast : equals + 1 < next := h.lt
  refine .pure ⟨rfl, h.rest, ?_, h.le⟩
  simp only
  omega

theorem matches_readAssignment (hstop : stop ≤ tokens.length) (hlt : i + 1 < stop)
    {name opener : Token} (hname : tokens[i]? = some name) (hopener : tokens[i + 1]? = some opener)
    (hvalue : opener.value = "[") :
    Matches (Passed tokens i stop) (readAssignment tokens i stop) (do
      let (assignment, rest) ← Assignment.readElement name opener (slice tokens (i + 2) stop)
      return (.assignment assignment, rest)) := by
  have hnext : valueAt tokens (i + 1) stop = pure opener.value := by
    rw [valueAt, if_pos hlt, tokenAt_eq hopener, pure_bind]
  rw [readAssignment, tokenAt_eq hname, pure_bind, hnext, pure_bind, if_pos hvalue,
    Assignment.readElement, bind_assoc]
  refine (matches_group hmarks hlt hstop hopener (by rw [hvalue]; decide)).bind ?_
  intro m g hg
  have hopen := hg.opener_lt
  have hm := hg.lt
  rw [hg.inside, bind_assoc]
  refine (matches_readIndex hopen (by omega) hopener hg.close
    (matches_readExpr hmarks ⟨i + 2, m⟩ (by simp only; omega))).bind ?_
  rintro index _ rfl
  rw [hg.rest]
  cases hafter : slice tokens (m + 1) stop with
  | nil =>
    have hend : ¬m + 1 < stop := by
      intro hlt
      obtain ⟨t, -, hcons⟩ := slice_eq_cons hlt hstop
      rw [hafter] at hcons
      cases hcons
    obtain rfl : stop = m + 1 := by omega
    rw [valueAt_of_nil hstop hafter, pure_bind, if_neg (by decide),
      lastSpan_eq hstop hg.close, pure_bind, if_neg hend]
    exact .fail
  | cons t rest =>
    obtain ⟨hlt', ht, rfl⟩ := of_slice_eq_cons hafter
    obtain ⟨span, hspan⟩ := exists_lastSpan hlt' hstop
    rw [valueAt_of_cons hafter, pure_bind]
    simp only
    split
    · exact matches_readAssigned hmarks hstop (by omega) hname ht (some index)
    · rw [hspan, pure_bind, tokenAt_eq ht, pure_bind]
      exact .fail

end Statements

/-! ### Blocks -/

section Blocks

variable {tokens : List Token}

/-- The opening brace at position `opener` and the block head found at `j` are the same. -/
structure Opens (tokens : List Token) (stop j opener : Nat) (head : BlockHead) : Prop where
  le : j ≤ opener
  lt : opener < stop
  first : tokens[j]? = some head.first
  brace : tokens[opener]? = some head.opener
  value : head.opener.value = "\x7b"
  rest : head.rest = slice tokens (opener + 1) stop

theorem blockAt_eq {stop j : Nat} (hlt : j < stop) (hstop : stop ≤ tokens.length) :
    (blockAt tokens stop j = pure none ∧ BlockHead.read? (slice tokens j stop) = none) ∨
    ∃ head opener, blockAt tokens stop j = pure (some (head.name, opener)) ∧
      BlockHead.read? (slice tokens j stop) = some head ∧ Opens tokens stop j opener head := by
  obtain ⟨t, ht, hslice⟩ := slice_eq_cons hlt hstop
  rw [blockAt, valueAt_of_cons hslice, pure_bind, hslice]
  by_cases hbrace : t.value = "\x7b"
  · refine .inr ⟨⟨Block.defaultName, t, t, slice tokens (j + 1) stop⟩, j, if_pos hbrace, ?_, ?_⟩
    · cases slice tokens (j + 1) stop with
      | nil => rw [BlockHead.read?, if_pos hbrace]
      | cons next rest => rw [BlockHead.read?, if_pos hbrace]
    · exact ⟨Nat.le_refl j, hlt, ht, ht, hbrace, rfl⟩
  · rw [if_neg hbrace]
    cases hafter : slice tokens (j + 1) stop with
    | nil =>
      rw [valueAt_of_nil hstop hafter, pure_bind, if_neg (fun h => absurd h.2 (by decide)),
        BlockHead.read?, if_neg hbrace]
      exact .inl ⟨rfl, rfl⟩
    | cons next rest =>
      obtain ⟨hlt', hnext, hrest⟩ := of_slice_eq_cons hafter
      rw [valueAt_of_cons hafter, pure_bind, BlockHead.read?, if_neg hbrace]
      split
      · rename_i hlabel
        rw [tokenAt_eq ht, pure_bind]
        exact .inr ⟨⟨t.value, t, next, rest⟩, j + 1, rfl, rfl, Nat.le_succ j, hlt', ht, hnext,
          hlabel.2, hrest⟩
      · exact .inl ⟨rfl, rfl⟩

variable {recur : TokenRange → Positional (List Stmt)}
  (hmarks : ∀ t ∈ tokens, t.value ≠ "/*" ∧ t.value ≠ "*/")

include hmarks

/-- Reading blocks by positions is reading them from the tokens. -/
theorem matches_readBlocks {r : TokenRange} (hstop : r.stop ≤ tokens.length)
    (hrecur : ∀ inner : TokenRange, inner.Inside r →
      Matches Eq (recur inner) (Stmt.readAll (slice tokens inner.start inner.stop)))
    {j : Nat} (hj : r.start ≤ j) (hle : j ≤ r.stop) :
    Matches (fun p q => p.1 = q.1 ∧ q.2 = slice tokens p.2 r.stop ∧ j ≤ p.2 ∧ p.2 ≤ r.stop)
      (readBlocks tokens recur r.stop j) (Block.readFront (slice tokens j r.stop)) := by
  rw [readBlocks, Block.readFront_eq]
  split
  · rename_i hlt
    rcases blockAt_eq hlt hstop with ⟨hnone, hread⟩ | ⟨head, opener, hsome, hread, hopens⟩
    · rw [hnone, pure_bind, hread]
      exact .pure ⟨rfl, rfl, Nat.le_refl j, hle⟩
    · rw [hsome, pure_bind, hread]
      simp only
      rw [hopens.rest]
      refine Matches.bind
        (matches_group hmarks hopens.lt hstop hopens.brace (by rw [hopens.value]; decide)) ?_
      intro m g hg
      have hopen := hg.opener_lt
      have hm := hg.lt
      have hjo := hopens.le
      rw [hg.inside]
      refine (hrecur ⟨opener + 1, m⟩ (inside_of_enclosed (by omega) hopen hm (Nat.le_refl _)
        (Nat.le_refl _))).bind ?_
      rintro body _ rfl
      rw [spanOf_eq hopens.first hg.close, pure_bind, advance, dif_pos (by omega), hg.rest]
      refine (matches_readBlocks hstop hrecur (show r.start ≤ m + 1 by omega) hm).bind ?_
      rintro ⟨blocks, next⟩ ⟨_, rest⟩ ⟨rfl, hrest, hpast, hend⟩
      simp only at hpast
      exact .pure ⟨rfl, hrest, by simp only; omega, hend⟩
  · rename_i hge
    rw [slice_of_le (Nat.le_of_not_lt hge), BlockHead.read?]
    exact .pure ⟨rfl, (slice_of_le (Nat.le_of_not_lt hge)).symm, Nat.le_refl j, hle⟩
  termination_by r.stop - j

/-- Reading a call by positions is reading it from the tokens. -/
theorem matches_readCall {r : TokenRange} (hstop : r.stop ≤ tokens.length)
    (hrecur : ∀ inner : TokenRange, inner.Inside r →
      Matches Eq (recur inner) (Stmt.readAll (slice tokens inner.start inner.stop)))
    {i : Nat} (hi : r.start ≤ i) (hlt : i + 1 < r.stop) {name opener : Token}
    (hname : tokens[i]? = some name) (hopener : tokens[i + 1]? = some opener)
    (hvalue : opener.value = "(") :
    Matches (Passed tokens i r.stop) (readCall tokens recur i r.stop) (do
      let head ← CallHead.read name opener (slice tokens (i + 2) r.stop)
      let (blocks, rest) ← Block.readFront head.rest
      return (.call name.value head.arguments blocks head.span, rest)) := by
  rw [readCall, tokenAt_eq hname, pure_bind, CallHead.read, bind_assoc]
  refine (matches_group hmarks hlt hstop hopener (by rw [hvalue]; decide)).bind ?_
  intro m g hg
  have hopen := hg.opener_lt
  have hm := hg.lt
  rw [spanOf_eq hname hg.close, pure_bind, hg.inside, bind_assoc]
  refine (matches_readList hopen (by omega) hopener hg.close hg.ne_comma "argument"
    (fun inner _ _ hend => matches_readExpr hmarks inner (by omega)) hg.nested).bind ?_
  rintro arguments _ rfl
  rw [pure_bind, hg.rest]
  refine (matches_readBlocks hmarks hstop hrecur (show r.start ≤ m + 1 by omega) hm).bind ?_
  rintro ⟨blocks, next⟩ ⟨_, rest⟩ ⟨rfl, hrest, hpast, hend⟩
  simp only at hpast
  exact .pure ⟨rfl, hrest, by simp only; omega, hend⟩

/-- Reading a statement by positions is reading it from the tokens; it is at least one token. -/
theorem matches_readStmt {r : TokenRange} (hstop : r.stop ≤ tokens.length)
    (hrecur : ∀ inner : TokenRange, inner.Inside r →
      Matches Eq (recur inner) (Stmt.readAll (slice tokens inner.start inner.stop)))
    {i : Nat} (hi : r.start ≤ i) (hlt : i < r.stop) :
    Matches (Passed tokens i r.stop) (readStmt tokens recur i r.stop)
      (Stmt.readFirst (slice tokens i r.stop)) := by
  rw [readStmt, valueAt_add hstop, pure_bind, takesArgument_eq hstop, pure_bind]
  have hdeclaration {head : DeclarationHead}
      (hhead : DeclarationHead.read? (slice tokens i r.stop) = some head) :
      Matches (Passed tokens i r.stop) (readDeclaration tokens i r.stop)
        (Stmt.readFirst (slice tokens i r.stop)) := by
    rw [Stmt.readFirst_declaration hhead]
    exact matches_readDeclaration hmarks hstop hhead
  rcases DeclarationHead.read?_cases (slice tokens i r.stop) with
    ⟨hgeneric, type, a, b, c, d, e, rest, hslice, hhead⟩ |
    ⟨hplain, hthird, type, name, equals, rest, hslice, hhead⟩ | ⟨hplain, hthird, hhead⟩
  · rw [if_pos (.inr (decide_eq_true hgeneric))]
    exact hdeclaration hhead
  · rw [if_pos (.inl hthird)]
    exact hdeclaration hhead
  · have hno : ¬(valueOf (slice tokens i r.stop) 2 = "=" ∨
        decide (Generic (slice tokens i r.stop)) = true) := by
      simp [hthird, hplain]
    obtain ⟨name, hname, hslice⟩ := slice_eq_cons hlt hstop
    rw [if_neg hno, tokenAt_eq hname]
    cases hafter : slice tokens (i + 1) r.stop with
    | nil =>
      rw [valueAt_of_nil hstop hafter, pure_bind, if_neg (by decide), if_neg (by decide), pure_bind,
        hslice, hafter]
      exact .fail
    | cons next rest =>
      obtain ⟨hlt', hnext, hrest⟩ := of_slice_eq_cons hafter
      rw [hslice, hafter] at hhead
      rw [valueAt_of_cons hafter, pure_bind, hslice, hafter, Stmt.readFirst_second hhead, pure_bind,
        hrest]
      by_cases hequals : next.value = "="
      · have hbracket : ¬next.value = "[" := by rw [hequals]; decide
        rw [if_pos (.inl hequals), if_pos hequals, readAssignment, tokenAt_eq hname, pure_bind,
          valueAt_of_cons hafter, pure_bind, if_neg hbracket]
        exact matches_readAssigned hmarks hstop (Nat.lt_succ_self i) hname hnext none
      · by_cases hbracket : next.value = "["
        · rw [if_pos (.inr hbracket), if_neg hequals, if_pos hbracket]
          exact matches_readAssignment hmarks hstop hlt' hname hnext hbracket
        · rw [if_neg (by simp [hequals, hbracket]), if_neg hequals, if_neg hbracket]
          split
          · rename_i hparenthesis
            exact matches_readCall hmarks hstop hrecur hi hlt' hname hnext hparenthesis
          · exact .fail

/-- Reading statements by positions is reading them from the tokens. -/
theorem matches_readStmtsWith {r : TokenRange} (hstop : r.stop ≤ tokens.length)
    (hrecur : ∀ inner : TokenRange, inner.Inside r →
      Matches Eq (recur inner) (Stmt.readAll (slice tokens inner.start inner.stop)))
    {i : Nat} (hi : r.start ≤ i) :
    Matches Eq (readStmtsWith tokens recur r.stop i) (Stmt.readAll (slice tokens i r.stop)) := by
  rw [readStmtsWith]
  split
  · rename_i hlt
    have hfirst := matches_readStmt hmarks hstop hrecur hi hlt
    obtain ⟨t, ht, hslice⟩ := slice_eq_cons hlt hstop
    rw [hslice] at hfirst ⊢
    rw [Stmt.readAll_cons]
    refine hfirst.bind ?_
    rintro ⟨s, next⟩ ⟨_, rest⟩ ⟨rfl, hrest, hpast, hend⟩
    simp only at hrest hpast ⊢
    rw [advance, dif_pos hpast, hrest]
    refine (matches_readStmtsWith hstop hrecur (show r.start ≤ next by omega)).bind ?_
    rintro others _ rfl
    exact .pure rfl
  · rename_i hge
    rw [slice_of_le (Nat.le_of_not_lt hge), Stmt.readAll]
    exact .pure rfl
  termination_by r.stop - i

omit recur in
theorem matches_readStmts (r : TokenRange) (hstop : r.stop ≤ tokens.length) :
    Matches Eq (readStmts tokens r) (Stmt.readAll (slice tokens r.start r.stop)) := by
  rw [readStmts]
  refine matches_readStmtsWith hmarks hstop ?_ (Nat.le_refl _)
  intro inner hinner
  have hsmaller := hinner.2.2
  rw [dif_pos hinner]
  exact matches_readStmts inner (Nat.le_trans hinner.2.1 hstop)
  termination_by r.length

end Blocks

/-! ### Comments -/

section Comments

variable {tokens : List Token}

theorem commentEnd_eq {i : Nat} (hi : i ≤ tokens.length) :
    (commentEnd tokens i = pure tokens.length ∧
      skipComment? (slice tokens i tokens.length) = none) ∨
    ∃ last, commentEnd tokens i = pure last ∧ i ≤ last ∧ last < tokens.length ∧
      skipComment? (slice tokens i tokens.length) =
        some (slice tokens (last + 1) tokens.length) := by
  rw [commentEnd]
  split
  · rename_i hlt
    obtain ⟨t, ht, hslice⟩ := slice_eq_cons hlt (Nat.le_refl _)
    rw [tokenAt_eq ht, pure_bind, hslice, skipComment?]
    split
    · exact .inr ⟨i, rfl, Nat.le_refl i, hlt, rfl⟩
    · rcases commentEnd_eq hlt with hnone | ⟨last, hlast, hle, hlength, hskip⟩
      · exact .inl hnone
      · exact .inr ⟨last, hlast, by omega, hlength, hskip⟩
  · rename_i hge
    obtain rfl : i = tokens.length := by omega
    rw [slice_of_le (Nat.le_refl _)]
    exact .inl ⟨rfl, rfl⟩
  termination_by tokens.length - i

/-- Comments are left out by positions as they are from the tokens. -/
theorem matches_stripFrom (i : Nat) :
    Matches Eq (stripFrom tokens i) (stripComments (slice tokens i tokens.length)) := by
  rw [stripFrom]
  split
  · rename_i hlt
    obtain ⟨t, ht, hslice⟩ := slice_eq_cons hlt (Nat.le_refl _)
    rw [tokenAt_eq ht, pure_bind, hslice, stripComments_cons]
    split
    · rcases commentEnd_eq hlt with ⟨hend, hskip⟩ | ⟨last, hlast, hle, hlength, hskip⟩
      · rw [hend, pure_bind, if_pos rfl, hskip]
        exact .fail
      · rw [hlast, pure_bind, if_neg (Nat.ne_of_lt hlength), advance, dif_pos (by omega), hskip]
        exact matches_stripFrom (last + 1)
    · split
      · exact .fail
      · refine (matches_stripFrom (i + 1)).bind ?_
        rintro kept _ rfl
        exact .pure rfl
  · rename_i hge
    rw [slice_of_le (Nat.le_of_not_lt hge), stripComments]
    exact .pure rfl
  termination_by tokens.length - i

end Comments

end Positional

theorem Uncommented.ne_mark {tokens kept : List Token} (h : Uncommented tokens kept) :
    ∀ t ∈ kept, t.value ≠ "/*" ∧ t.value ≠ "*/" := by
  induction h with
  | nil => simp
  | keep hopen hclose _ ih => exact List.forall_mem_cons.2 ⟨⟨hopen, hclose⟩, ih⟩
  | comment _ _ _ _ ih => exact ih

theorem Positional.matches_readProgram (tokens : List Token) :
    Matches Eq (readProgram tokens) (Program.ofTokens tokens) := by
  rw [readProgram, Program.ofTokens]
  have hstrip : Matches Eq (stripFrom tokens 0) (stripComments tokens) := by
    have hall := @matches_stripFrom tokens 0
    rwa [slice_length] at hall
  have hkept : Matches (fun kept kept' => kept = kept' ∧ Uncommented tokens kept)
      (stripFrom tokens 0) (stripComments tokens) :=
    hstrip.imp fun kept kept' hok heq => ⟨heq, heq ▸ uncommented_stripComments tokens hok⟩
  refine hkept.bind ?_
  rintro kept _ ⟨rfl, huncommented⟩
  have hstmts := matches_readStmts huncommented.ne_mark ⟨0, kept.length⟩ (Nat.le_refl _)
  rw [slice_length] at hstmts
  refine hstmts.bind ?_
  rintro statements _ rfl
  exact .pure rfl

/-- Reading a program by positions never faults, whatever the tokens are: each position it looks
    at has a token, each step goes forward and each part is read from a smaller range. The result
    is that of reading from the token list, and a failure is one of syntax. -/
theorem Program.ofTokens_by_positions (tokens : List Token) :
    ∃ result : Except SyntaxError Program, (Positional.readProgram tokens).run = .ok result ∧
      Program.ofTokens tokens = result.mapError Subtype.val := by
  rcases Positional.matches_readProgram tokens with
    ⟨p, _, hread, htokens, rfl⟩ | ⟨f, hread, htokens⟩
  · exact ⟨.ok p, by rw [hread]; rfl, htokens⟩
  · exact ⟨.error f, by rw [hread]; rfl, htokens⟩

end Goat
