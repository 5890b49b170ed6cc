import Goat.Proofs.Reading
import Goat.Proofs.Spelling

/-!
# Reading does not depend on spans

What is read from tokens without their spans is what is read from the tokens, without its spans,
and a failure is the same failure without a place. So the program that some tokens spell, or the
reason why they spell none, depends on nothing but the values of the tokens.
-/

namespace Goat

open Diagnostic

/-- The failure without its place. -/
def Failure.withoutSpan (f : Failure) : Failure := f.located Span.none

theorem Failure.withoutSpan_ofCause (cause : Cause) (span : Span) :
    (Failure.ofCause cause span).withoutSpan = .ofCause cause Span.none := rfl

@[simp] theorem Token.value_withoutSpan (t : Token) : t.withoutSpan.value = t.value := rfl

/-- The group without its spans. -/
def Group.withoutSpans (g : Group) : Group :=
  ⟨g.inside.map Token.withoutSpan, g.close.withoutSpan, g.rest.map Token.withoutSpan⟩

/-- The reading without its spans. -/
def Reading.withoutSpans (reading : Reading) : Reading :=
  ⟨reading.expr.withoutSpans, reading.last.withoutSpan, reading.rest.map Token.withoutSpan⟩

/-- The head of a declaration without its spans. -/
def DeclarationHead.withoutSpans (head : DeclarationHead) : DeclarationHead :=
  ⟨head.type.withoutSpan, head.argument.map Token.withoutSpan, head.name.withoutSpan,
    head.equals.withoutSpan, head.rest.map Token.withoutSpan⟩

/-- The head of a call without its spans. -/
def CallHead.withoutSpans (head : CallHead) : CallHead :=
  ⟨Expr.allWithoutSpans head.arguments, Span.none, head.rest.map Token.withoutSpan⟩

/-- The head of a block without its spans. -/
def BlockHead.withoutSpans (head : BlockHead) : BlockHead :=
  ⟨head.name, head.first.withoutSpan, head.opener.withoutSpan, head.rest.map Token.withoutSpan⟩

/-- What was read, without its spans, and the tokens that are left, without theirs. -/
def restWithoutSpans {α β : Type} (erase : α → β) (p : α × List Token) : β × List Token :=
  (erase p.1, p.2.map Token.withoutSpan)

/-- The outcome of a step of reading without spans; `erase` takes them from a result. -/
def eraseSpans {α β : Type} (erase : α → β) : Except Failure α → Except Failure β
  | .ok a => .ok (erase a)
  | .error f => .error f.withoutSpan

/-- A failure with a cause keeps the cause. -/
theorem eraseSpans_ofCause {α β : Type} {erase : α → β} (cause : Cause) (span : Span) :
    .error (.ofCause cause Span.none) = eraseSpans erase (.error (.ofCause cause span)) :=
  congrArg Except.error (Failure.withoutSpan_ofCause cause span).symm

/-- Steps that agree up to spans do so one after the other. -/
theorem eraseSpans_bind {α β γ δ : Type} {erase : α → β} {erase' : γ → δ} {x : Except Failure α}
    {x' : Except Failure β} {k : α → Except Failure γ} {k' : β → Except Failure δ}
    (hx : x' = eraseSpans erase x) (hk : ∀ a, x = .ok a → k' (erase a) = eraseSpans erase' (k a)) :
    (x' >>= k') = eraseSpans erase' (x >>= k) := by
  subst hx
  cases x with
  | error f => rfl
  | ok a => exact hk a rfl

/-! ### Brackets -/

theorem Group.takeFrom_withoutSpan (outer : List Text) (want : Text) (seen : List Token)
    (last : Token) (tokens : List Token) :
    takeFrom outer want (seen.map Token.withoutSpan) last.withoutSpan
      (tokens.map Token.withoutSpan) =
      eraseSpans withoutSpans (takeFrom outer want seen last tokens) := by
  induction tokens generalizing outer want seen last with
  | nil => exact eraseSpans_ofCause _ _
  | cons t rest ih =>
    have hnext (outer : List Text) (want : Text) := ih outer want (t :: seen) t
    simp only [List.map_cons] at hnext
    rw [List.map_cons, takeFrom.eq_def, takeFrom.eq_def outer]
    simp only [Token.value_withoutSpan]
    cases closerOf? t.value with
    | some closer => exact hnext _ _
    | none =>
      by_cases hcloser : isCloser t.value = true
      · simp only [hcloser, if_true]
        by_cases hwant : t.value = want
        · cases outer with
          | nil => simp [hwant, eraseSpans, withoutSpans]
          | cons next outer =>
            simp only [hwant, if_true]
            exact hnext outer next
        · simp only [hwant, if_false]
          exact eraseSpans_ofCause _ _
      · simp only [hcloser]
        exact hnext outer want

theorem Group.take_withoutSpan (opener : Token) (closer : Text) (tokens : List Token) :
    take opener.withoutSpan closer (tokens.map Token.withoutSpan) =
      eraseSpans withoutSpans (take opener closer tokens) :=
  takeFrom_withoutSpan [] closer [] opener tokens

theorem splitItem_withoutSpan (depth : Nat) (tokens : List Token) :
    splitItem depth (tokens.map Token.withoutSpan) =
      ((splitItem depth tokens).1.map Token.withoutSpan,
        (splitItem depth tokens).2.map fun (comma, rest) =>
          (comma.withoutSpan, rest.map Token.withoutSpan)) := by
  induction tokens generalizing depth with
  | nil => rfl
  | cons t rest ih =>
    have hdepth : depthAfter depth t.withoutSpan = depthAfter depth t := rfl
    rw [List.map_cons, splitItem, splitItem, Token.value_withoutSpan, hdepth, ih]
    split
    · rfl
    · rfl

theorem operandsFrom_withoutSpan (depth : Nat) (item tokens : List Token) :
    operandsFrom depth (item.map Token.withoutSpan) (tokens.map Token.withoutSpan) =
      (operandsFrom depth item tokens).map (List.map Token.withoutSpan) := by
  induction tokens generalizing depth item with
  | nil => cases item <;> simp [operandsFrom]
  | cons t rest ih =>
    have hdepth : depthAfter depth t.withoutSpan = depthAfter depth t := rfl
    have hopens : opensIndex (rest.map Token.withoutSpan) = opensIndex rest := by
      cases rest with
      | nil => rfl
      | cons u rest => rfl
    have hnext (depth : Nat) := ih depth (t :: item)
    have hnew (depth : Nat) := ih depth []
    simp only [List.map_cons, List.map_nil] at hnext hnew
    rw [List.map_cons, operandsFrom, operandsFrom, Token.value_withoutSpan, hdepth, hopens]
    simp only [hnext, hnew]
    split
    · split
      · rfl
      · split
        · rfl
        · simp
    · split
      · simp
      · rfl

/-! ### Expressions -/

theorem Expr.allWithoutSpans_eq_map (items : List Expr) :
    Expr.allWithoutSpans items = items.map Expr.withoutSpans := by
  induction items with
  | nil => rfl
  | cons e rest ih => rw [Expr.allWithoutSpans, ih, List.map_cons]

theorem readNumber_withoutSpan (t : Token) :
    readNumber t.withoutSpan = eraseSpans id (readNumber t) := by
  rw [readNumber, readNumber, Token.value_withoutSpan]
  cases Text.toNat? t.value with
  | none => exact eraseSpans_ofCause _ _
  | some n =>
    simp only
    split
    · rfl
    · exact eraseSpans_ofCause _ _

/-- An expression that is read from the tokens does not depend on their spans. -/
def Expr.Erases (tokens : List Token) : Prop :=
  Expr.read (tokens.map Token.withoutSpan) =
    eraseSpans (Option.map Reading.withoutSpans) (Expr.read tokens)

theorem Expr.Erases.readWhole {tokens : List Token} (h : Expr.Erases tokens) :
    Expr.readWhole (tokens.map Token.withoutSpan) =
      eraseSpans Expr.withoutSpans (Expr.readWhole tokens) := by
  rw [Expr.readWhole.eq_def, Expr.readWhole.eq_def tokens]
  refine eraseSpans_bind h ?_
  intro found _
  cases found with
  | none => cases tokens <;> exact eraseSpans_ofCause _ _
  | some reading =>
    simp only [Option.map_some, Reading.withoutSpans]
    cases reading.rest with
    | nil => rfl
    | cons t rest => exact eraseSpans_ofCause _ _

theorem Expr.Erases.readIndex {tokens : List Token} (h : Expr.Erases tokens)
    (opener close : Token) :
    Expr.readIndex opener.withoutSpan close.withoutSpan (tokens.map Token.withoutSpan) =
      eraseSpans Expr.withoutSpans (Expr.readIndex opener close tokens) := by
  cases tokens with
  | nil =>
    rw [List.map_nil, Expr.readIndex, Expr.readIndex]
    exact eraseSpans_ofCause _ _
  | cons first rest =>
    rw [List.map_cons, Expr.readIndex, Expr.readIndex]
    refine eraseSpans_bind h ?_
    intro found _
    cases found with
    | none => exact eraseSpans_ofCause _ _
    | some reading =>
      simp only [Option.map_some, Reading.withoutSpans]
      cases reading.rest with
      | nil => rfl
      | cons t rest => exact eraseSpans_ofCause _ _

/-- Expressions of fewer than `n` tokens do not depend on the spans of the tokens. -/
def Expr.ErasesBelow (n : Nat) : Prop :=
  ∀ tokens : List Token, tokens.length < n → Expr.Erases tokens

section Below

variable {n : Nat} (hbelow : Expr.ErasesBelow n)

include hbelow

theorem Expr.readItems_withoutSpan (what : Text) (before : Token) (tokens : List Token)
    (hn : tokens.length < n) :
    Expr.readItems what before.withoutSpan (tokens.map Token.withoutSpan) =
      eraseSpans Expr.allWithoutSpans (Expr.readItems what before tokens) := by
  rw [Expr.readItems_eq, Expr.readItems_eq, splitItem_withoutSpan]
  have hlength := length_splitItem 0 tokens
  rcases hs : splitItem 0 tokens with ⟨item, _ | ⟨comma, rest⟩⟩
  · rw [hs] at hlength
    have hitem := (hbelow item (by simp only at hlength; omega)).readWhole
    cases item with
    | nil => exact eraseSpans_ofCause _ _
    | cons t more =>
      refine eraseSpans_bind hitem ?_
      intro e _
      rfl
  · rw [hs] at hlength
    have hrest := length_rest_splitItem hs
    have hitem := (hbelow item (by simp only at hlength; omega)).readWhole
    cases item with
    | nil => exact eraseSpans_ofCause _ _
    | cons t more =>
      refine eraseSpans_bind hitem ?_
      intro e _
      refine eraseSpans_bind (Expr.readItems_withoutSpan what comma rest (by omega)) ?_
      intro others _
      rfl
  termination_by tokens.length

theorem Expr.readList_withoutSpan (what : Text) (opener : Token) (tokens : List Token)
    (hn : tokens.length < n) :
    Expr.readList what opener.withoutSpan (tokens.map Token.withoutSpan) =
      eraseSpans Expr.allWithoutSpans (Expr.readList what opener tokens) := by
  cases tokens with
  | nil => rw [List.map_nil, Expr.readList, Expr.readList]; rfl
  | cons t rest =>
    have hitems := Expr.readItems_withoutSpan hbelow what opener (t :: rest) hn
    rw [List.map_cons] at hitems ⊢
    rw [Expr.readList, Expr.readList]
    exact hitems

theorem Expr.readBinary_withoutSpan (opener : Token) (g : Group) (hn : g.inside.length < n) :
    Expr.readBinary opener.withoutSpan g.withoutSpans =
      eraseSpans (Option.map Reading.withoutSpans) (Expr.readBinary opener g) := by
  have hoperands : operands g.withoutSpans.inside =
      (operands g.inside).map (List.map Token.withoutSpan) := operandsFrom_withoutSpan 0 [] g.inside
  have hwhole (operand : List Token) (hmem : operand ∈ operands g.inside) :
      Expr.readWhole (operand.map Token.withoutSpan) =
        eraseSpans Expr.withoutSpans (Expr.readWhole operand) := by
    have hlength := (List.sublist_flatten_of_mem hmem).length_le
    rw [flatten_operands] at hlength
    exact (hbelow operand (by omega)).readWhole
  have hcount (items : List (List Token)) :
      operandCountFailure g.withoutSpans.close (items.map (List.map Token.withoutSpan)) =
        (operandCountFailure g.close items).withoutSpan := by
    have hfourth : (items.map (List.map Token.withoutSpan))[3]?.bind List.head? =
        (items[3]?.bind List.head?).map Token.withoutSpan := by
      rw [List.getElem?_map]
      cases items[3]? with
      | none => rfl
      | some fourth => cases fourth <;> rfl
    have hclose : g.withoutSpans.close = g.close.withoutSpan := rfl
    rw [operandCountFailure, operandCountFailure, hfourth, hclose, Option.getD_map,
      List.length_map]
    exact (Failure.withoutSpan_ofCause _ _).symm
  rw [Expr.readBinary, Expr.readBinary, hoperands]
  generalize operands g.inside = items at hwhole ⊢
  rcases items with _ | ⟨left, _ | ⟨middle, _ | ⟨right, _ | ⟨fourth, more⟩⟩⟩⟩
  · exact congrArg Except.error (hcount [])
  · exact congrArg Except.error (hcount [left])
  · cases middle <;> exact congrArg Except.error (hcount [left, _])
  · cases middle with
    | nil => exact congrArg Except.error (hcount [left, [], right])
    | cons op extra =>
      simp only [List.map_cons, List.map_nil, Token.value_withoutSpan]
      cases Operator.ofSymbol? op.value with
      | none => exact eraseSpans_ofCause _ _
      | some operator =>
        cases extra with
        | cons u extra => exact eraseSpans_ofCause _ _
        | nil =>
          refine eraseSpans_bind (hwhole left (by simp)) ?_
          intro l _
          refine eraseSpans_bind (hwhole right (by simp)) ?_
          intro r _
          rfl
  · cases middle <;> exact congrArg Except.error (hcount (left :: _ :: right :: fourth :: more))

theorem Expr.readBracketed_withoutSpan (opener : Token) (g : Group) (hn : g.inside.length < n) :
    Expr.readBracketed opener.withoutSpan g.withoutSpans =
      eraseSpans (Option.map Reading.withoutSpans) (Expr.readBracketed opener g) := by
  refine eraseSpans_bind (Expr.readList_withoutSpan hbelow "list item" opener g.inside hn) ?_
  intro items _
  rfl

theorem Expr.readElement_withoutSpan (name opener : Token) (g : Group) (hn : g.inside.length < n) :
    Expr.readElement name.withoutSpan opener.withoutSpan g.withoutSpans =
      eraseSpans (Option.map Reading.withoutSpans) (Expr.readElement name opener g) := by
  refine eraseSpans_bind ((hbelow g.inside hn).readIndex opener g.close) ?_
  intro index _
  rfl

theorem Expr.readName_withoutSpan (name : Token) (rest : List Token) (hn : rest.length < n) :
    Expr.readName name.withoutSpan (rest.map Token.withoutSpan) =
      eraseSpans (Option.map Reading.withoutSpans) (Expr.readName name rest) := by
  cases rest with
  | nil => rfl
  | cons opener more =>
    rw [List.map_cons, Expr.readName, Expr.readName, Token.value_withoutSpan]
    split
    · refine eraseSpans_bind (Group.take_withoutSpan opener "]" more) ?_
      intro g hg
      have hlength := Group.length_take hg
      rw [List.length_cons] at hn
      exact Expr.readElement_withoutSpan hbelow name opener g (by omega)
    · rfl

end Below

/-- Reading an expression does not depend on spans. -/
theorem Expr.erases (tokens : List Token) : Expr.Erases tokens := by
  induction hn : tokens.length using Nat.strongRecOn generalizing tokens with
  | _ n ih =>
    have hbelow : Expr.ErasesBelow n := fun ts hts => ih ts.length hts ts rfl
    rw [Expr.Erases]
    cases tokens with
    | nil => rw [List.map_nil, Expr.read]; rfl
    | cons t rest =>
      rw [List.length_cons] at hn
      rw [List.map_cons, Expr.read_cons, Expr.read_cons, Token.value_withoutSpan]
      split
      · refine eraseSpans_bind (Group.take_withoutSpan t ")" rest) ?_
        intro g hg
        have hlength := Group.length_take hg
        exact Expr.readBinary_withoutSpan hbelow t g (by omega)
      · split
        · refine eraseSpans_bind (Group.take_withoutSpan t "]" rest) ?_
          intro g hg
          have hlength := Group.length_take hg
          exact Expr.readBracketed_withoutSpan hbelow t g (by omega)
        · split
          · refine eraseSpans_bind (readNumber_withoutSpan t) ?_
            intro value _
            rfl
          · split
            · exact Expr.readName_withoutSpan hbelow t rest (by omega)
            · rfl

/-! ### Statements -/

theorem readValue_withoutSpan (equals : Token) (tokens : List Token) :
    readValue equals.withoutSpan (tokens.map Token.withoutSpan) =
      eraseSpans Reading.withoutSpans (readValue equals tokens) := by
  rw [readValue.eq_def, readValue.eq_def equals]
  refine eraseSpans_bind (Expr.erases tokens) ?_
  intro found _
  cases found with
  | none => cases tokens <;> exact eraseSpans_ofCause _ _
  | some reading => rfl

theorem DeclarationHead.read?_withoutSpan (tokens : List Token) :
    read? (tokens.map Token.withoutSpan) = (read? tokens).map withoutSpans := by
  match tokens with
  | type :: a :: b :: c :: d :: e :: rest =>
    simp only [List.map_cons, read?, Token.value_withoutSpan]
    by_cases hgeneric : a.value = "<" ∧ c.value = ">" ∧ e.value = "="
    · simp only [hgeneric, and_self, if_true]
      rfl
    · by_cases hequals : b.value = "="
      · simp only [hgeneric, hequals, if_true, if_false]
        rfl
      · simp only [hgeneric, hequals, if_false]
        rfl
  | [] | [_] | [_, _] => rfl
  | [_, _, equals] | [_, _, equals, _] | [_, _, equals, _, _] =>
    simp only [List.map_cons, List.map_nil, read?, Token.value_withoutSpan]
    by_cases hequals : equals.value = "="
    · simp only [hequals, if_true]
      rfl
    · simp only [hequals, if_false]
      rfl

theorem Declaration.read_withoutSpan (head : DeclarationHead) :
    Declaration.read head.withoutSpans =
      eraseSpans (restWithoutSpans Declaration.withoutSpans) (Declaration.read head) := by
  refine eraseSpans_bind (readValue_withoutSpan head.equals head.rest) ?_
  intro value _
  rfl

theorem Assignment.readValueOf_withoutSpan (name : Token) (index : Option Expr) (equals : Token)
    (tokens : List Token) :
    readValueOf name.withoutSpan (index.map Expr.withoutSpans) equals.withoutSpan
        (tokens.map Token.withoutSpan) =
      eraseSpans (restWithoutSpans Assignment.withoutSpans)
        (readValueOf name index equals tokens) := by
  refine eraseSpans_bind (readValue_withoutSpan equals tokens) ?_
  intro value _
  rfl

theorem Assignment.readElement_withoutSpan (name opener : Token) (tokens : List Token) :
    readElement name.withoutSpan opener.withoutSpan (tokens.map Token.withoutSpan) =
      eraseSpans (restWithoutSpans Assignment.withoutSpans) (readElement name opener tokens) := by
  refine eraseSpans_bind (Group.take_withoutSpan opener "]" tokens) ?_
  intro g _
  refine eraseSpans_bind ((Expr.erases g.inside).readIndex opener g.close) ?_
  intro index _
  simp only [Group.withoutSpans]
  cases g.rest with
  | nil => exact eraseSpans_ofCause _ _
  | cons equals rest =>
    simp only [List.map_cons]
    rw [Token.value_withoutSpan]
    split
    · exact Assignment.readValueOf_withoutSpan name (some index) equals rest
    · exact eraseSpans_ofCause _ _

theorem CallHead.read_withoutSpan (name opener : Token) (tokens : List Token) :
    read name.withoutSpan opener.withoutSpan (tokens.map Token.withoutSpan) =
      eraseSpans withoutSpans (read name opener tokens) := by
  refine eraseSpans_bind (Group.take_withoutSpan opener ")" tokens) ?_
  intro g _
  have hbelow : Expr.ErasesBelow (g.inside.length + 1) := fun ts _ => Expr.erases ts
  refine eraseSpans_bind (Expr.readList_withoutSpan hbelow "argument" opener g.inside
    (Nat.lt_succ_self _)) ?_
  intro arguments _
  rfl

theorem BlockHead.read?_withoutSpan (tokens : List Token) :
    read? (tokens.map Token.withoutSpan) = (read? tokens).map withoutSpans := by
  match tokens with
  | [] => rfl
  | [t] =>
    simp only [List.map_cons, List.map_nil, read?, Token.value_withoutSpan]
    by_cases hbrace : t.value = "\x7b"
    · simp only [hbrace, if_true]
      rfl
    · simp only [hbrace, if_false]
      rfl
  | t :: next :: rest =>
    simp only [List.map_cons, read?, Token.value_withoutSpan]
    by_cases hbrace : t.value = "\x7b"
    · simp only [hbrace, if_true]
      rfl
    · by_cases hlabel : isIdentifier t.value = true ∧ next.value = "\x7b"
      · simp only [hbrace, hlabel, and_self, if_true, if_false]
        rfl
      · simp only [hbrace, hlabel, if_false]
        rfl

/-- Blocks do not depend on spans if the statements of fewer tokens do not. -/
theorem Block.readFront_withoutSpan (tokens : List Token)
    (hbelow : ∀ ts : List Token, ts.length < tokens.length →
      Stmt.readAll (ts.map Token.withoutSpan) =
        eraseSpans Stmt.allWithoutSpans (Stmt.readAll ts)) :
    Block.readFront (tokens.map Token.withoutSpan) =
      eraseSpans (restWithoutSpans Block.allWithoutSpans) (Block.readFront tokens) := by
  rw [Block.readFront_eq, Block.readFront_eq tokens, BlockHead.read?_withoutSpan]
  cases hh : BlockHead.read? tokens with
  | none => rfl
  | some head =>
    refine eraseSpans_bind (Group.take_withoutSpan head.opener "\x7d" head.rest) ?_
    intro g hg
    have hhead := BlockHead.length_rest_read hh
    have hlength := Group.length_take hg
    refine eraseSpans_bind (hbelow g.inside (by omega)) ?_
    intro body _
    refine eraseSpans_bind (Block.readFront_withoutSpan g.rest
      fun ts hts => hbelow ts (by omega)) ?_
    rintro ⟨blocks, rest⟩ _
    rfl
  termination_by tokens.length

theorem Stmt.readFirst_withoutSpan (t : Token) (more : List Token)
    (hbelow : ∀ ts : List Token, ts.length < (t :: more).length →
      Stmt.readAll (ts.map Token.withoutSpan) =
        eraseSpans Stmt.allWithoutSpans (Stmt.readAll ts)) :
    Stmt.readFirst ((t :: more).map Token.withoutSpan) =
      eraseSpans (restWithoutSpans Stmt.withoutSpans) (Stmt.readFirst (t :: more)) := by
  have hhead := DeclarationHead.read?_withoutSpan (t :: more)
  cases hd : DeclarationHead.read? (t :: more) with
  | some head =>
    rw [hd] at hhead
    rw [Stmt.readFirst_declaration hd, Stmt.readFirst_declaration hhead]
    refine eraseSpans_bind (Declaration.read_withoutSpan head) ?_
    rintro ⟨d, rest⟩ _
    rfl
  | none =>
    rw [hd] at hhead
    cases more with
    | nil => exact eraseSpans_ofCause _ _
    | cons next rest =>
      simp only [List.map_cons] at hhead ⊢
      rw [Stmt.readFirst_second hd, Stmt.readFirst_second hhead, Token.value_withoutSpan,
        Token.value_withoutSpan]
      split
      · refine eraseSpans_bind (Assignment.readValueOf_withoutSpan t none next rest) ?_
        rintro ⟨a, left⟩ _
        rfl
      · split
        · refine eraseSpans_bind (Assignment.readElement_withoutSpan t next rest) ?_
          rintro ⟨a, left⟩ _
          rfl
        · split
          · refine eraseSpans_bind (CallHead.read_withoutSpan t next rest) ?_
            intro head hcall
            have hlength := CallHead.length_rest_read hcall
            simp only [List.length_cons] at hbelow
            refine eraseSpans_bind (Block.readFront_withoutSpan head.rest
              fun ts hts => hbelow ts (by omega)) ?_
            rintro ⟨blocks, left⟩ _
            rfl
          · exact eraseSpans_ofCause _ _

/-- Reading statements does not depend on spans. -/
theorem Stmt.readAll_withoutSpan (tokens : List Token) :
    Stmt.readAll (tokens.map Token.withoutSpan) =
      eraseSpans Stmt.allWithoutSpans (Stmt.readAll tokens) := by
  induction hn : tokens.length using Nat.strongRecOn generalizing tokens with
  | _ n ih =>
    subst hn
    cases tokens with
    | nil => rw [List.map_nil, Stmt.readAll]; rfl
    | cons t more =>
      have hfirst := Stmt.readFirst_withoutSpan t more fun ts hts => ih ts.length hts ts rfl
      rw [List.map_cons] at hfirst ⊢
      rw [Stmt.readAll_cons, Stmt.readAll_cons]
      refine eraseSpans_bind hfirst ?_
      rintro ⟨s, rest⟩ hs
      have hlength := Stmt.length_rest_readFirst hs
      refine eraseSpans_bind (ih rest.length hlength rest rfl) ?_
      intro others _
      rfl

theorem skipComment?_withoutSpan (tokens : List Token) :
    skipComment? (tokens.map Token.withoutSpan) =
      (skipComment? tokens).map (List.map Token.withoutSpan) := by
  induction tokens with
  | nil => rfl
  | cons t rest ih =>
    rw [List.map_cons, skipComment?, skipComment?, Token.value_withoutSpan, ih]
    split <;> rfl

theorem stripComments_withoutSpan (tokens : List Token) :
    stripComments (tokens.map Token.withoutSpan) =
      eraseSpans (List.map Token.withoutSpan) (stripComments tokens) := by
  induction hn : tokens.length using Nat.strongRecOn generalizing tokens with
  | _ n ih =>
    subst hn
    cases tokens with
    | nil => rw [List.map_nil, stripComments]; rfl
    | cons t rest =>
      rw [List.map_cons, stripComments_cons, stripComments_cons, Token.value_withoutSpan,
        skipComment?_withoutSpan]
      split
      · cases hs : skipComment? rest with
        | none => exact eraseSpans_ofCause _ _
        | some after =>
          have hlength := length_skipComment hs
          exact ih after.length (by rw [List.length_cons]; omega) after rfl
      · split
        · exact eraseSpans_ofCause _ _
        · refine eraseSpans_bind (ih rest.length (Nat.lt_succ_self _) rest rfl) ?_
          intro kept _
          rfl

/-- Reading a program does not depend on spans. -/
theorem Program.ofTokens_withoutSpan (tokens : List Token) :
    Program.ofTokens (tokens.map Token.withoutSpan) =
      eraseSpans Program.withoutSpans (Program.ofTokens tokens) := by
  refine eraseSpans_bind (stripComments_withoutSpan tokens) ?_
  intro kept _
  refine eraseSpans_bind (Stmt.readAll_withoutSpan kept) ?_
  intro statements _
  rfl

/-- Tokens with the same values spell the same program, or fail for the same reason. -/
theorem Program.ofTokens_eq_of_values {tokens tokens' : List Token}
    (h : tokens.map Token.value = tokens'.map Token.value) :
    eraseSpans Program.withoutSpans (Program.ofTokens tokens) =
      eraseSpans Program.withoutSpans (Program.ofTokens tokens') := by
  have hmap (ts : List Token) :
      ts.map Token.withoutSpan = (ts.map Token.value).map fun value => ⟨value, Span.none⟩ := by
    rw [List.map_map]
    rfl
  rw [← Program.ofTokens_withoutSpan, ← Program.ofTokens_withoutSpan, hmap, hmap, h]

end Goat
