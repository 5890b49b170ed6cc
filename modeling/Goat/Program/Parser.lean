import Goat.Program.Basic
import Goat.Program.Bracket

/-!
# Reading programs

A program is read from its tokens by looking a few tokens ahead:

    TYPE NAME = expr            declaration
    TYPE < N > NAME = expr      declaration with a type argument
    NAME = expr                 assignment
    NAME [ expr ] = expr        assignment to an element
    NAME ( arguments ) blocks   call

Reading stops at the first failure, which points at the token closest to it.
Every step leaves fewer tokens than it was given.
-/

namespace Goat

open Diagnostic

/-- An expression read from the front of some tokens, its last token and the
    tokens after it. -/
structure Reading where
  expr : Expr
  last : Token
  rest : List Token

/-- The failure for parentheses that do not hold two operands and an operator:
    it points at the fourth item or else at the closing parenthesis. -/
def operandCountFailure (close : Token) (items : List (List Token)) : Failure :=
  let fourth := (items[3]?.bind List.head?).getD close
  .ofCause (.operandCount items.length) fourth.span

/-- The numeral as a number, if it fits 64 bits. -/
def readNumber (t : Token) : Except Failure Nat :=
  match Text.toNat? t.value with
  | some n =>
    if n < 0x8000000000000000 then .ok n else .error (.ofCause (.invalidNumber t.value) t.span)
  | none => .error (.ofCause (.invalidNumber t.value) t.span)

theorem length_operand_left {tokens left op right : List Token}
    (h : operands tokens = [left, op, right]) : left.length ≤ tokens.length := by
  have := congrArg List.length (flatten_operands tokens)
  simp only [h, List.flatten_cons, List.flatten_nil, List.length_append, List.length_nil] at this
  omega

theorem length_operand_right {tokens left op right : List Token}
    (h : operands tokens = [left, op, right]) : right.length ≤ tokens.length := by
  have := congrArg List.length (flatten_operands tokens)
  simp only [h, List.flatten_cons, List.flatten_nil, List.length_append, List.length_nil] at this
  omega

mutual

/-- Reads one expression from the front of the tokens; `none` if the first token
    cannot start one. -/
def Expr.read (tokens : List Token) : Except Failure (Option Reading) :=
  match tokens with
  | [] => .ok none
  | t :: rest =>
    if t.value = "(" then
      match _hg : Group.take t ")" rest with
      | .error f => .error f
      | .ok g =>
        match _ho : operands g.inside with
        | [left, op :: extra, right] =>
          match Operator.ofSymbol? op.value, extra with
          | some operator, [] => do
            let l ← Expr.readWhole left
            let r ← Expr.readWhole right
            return some ⟨.binary operator l r (t.span.merge g.close.span), g.close, g.rest⟩
          | _, _ => .error (.ofCause (.invalidOperator op.value) op.span)
        | items => .error (operandCountFailure g.close items)
    else if t.value = "[" then
      match _hg : Group.take t "]" rest with
      | .error f => .error f
      | .ok g => do
        let items ← Expr.readList "list item" t g.inside
        return some ⟨.list items (t.span.merge g.close.span), g.close, g.rest⟩
    else if isNumeral t.value then do
      let n ← readNumber t
      return some ⟨.number n t.span, t, rest⟩
    else if isIdentifier t.value then
      match rest with
      | [] => .ok (some ⟨.var t.value t.span, t, []⟩)
      | opener :: more =>
        if opener.value = "[" then
          match _hg : Group.take opener "]" more with
          | .error f => .error f
          | .ok g => do
            let index ← Expr.readIndex opener g.close g.inside
            return some ⟨.element t.value index (t.span.merge g.close.span), g.close, g.rest⟩
        else .ok (some ⟨.var t.value t.span, t, opener :: more⟩)
    else .ok none
  termination_by 3 * tokens.length
  decreasing_by
    · have := Group.length_take _hg
      have := length_operand_left _ho
      simp only [List.length_cons]
      omega
    · have := Group.length_take _hg
      have := length_operand_right _ho
      simp only [List.length_cons]
      omega
    · have := Group.length_take _hg
      simp only [List.length_cons]
      omega
    · have := Group.length_take _hg
      simp only [List.length_cons]
      omega

/-- Reads an expression that takes all of the tokens. -/
def Expr.readWhole (tokens : List Token) : Except Failure Expr := do
  match ← Expr.read tokens with
  | none => .error (.ofCause .invalidExpression ((tokens.head?.map Token.span).getD Span.none))
  | some reading =>
    match reading.rest with
    | [] => return reading.expr
    | t :: _ => .error (.ofCause (.unexpected t.value) t.span)
  termination_by 3 * tokens.length + 1
  decreasing_by omega

/-- Reads the expression between the brackets of an index. -/
def Expr.readIndex (opener close : Token) (tokens : List Token) : Except Failure Expr :=
  match tokens with
  | [] => .error (.ofCause .invalidIndex (opener.span.merge close.span))
  | first :: rest => do
    match ← Expr.read (first :: rest) with
    | none => .error (.ofCause .invalidIndex first.span)
    | some reading =>
      match reading.rest with
      | [] => return reading.expr
      | t :: _ => .error (.ofCause .invalidIndex t.span)
  termination_by 3 * tokens.length + 1
  decreasing_by simp only [List.length_cons]; omega

/-- Reads the expressions between the brackets of a list or call. -/
def Expr.readList (what : Text) (opener : Token) (tokens : List Token) :
    Except Failure (List Expr) :=
  match tokens with
  | [] => .ok []
  | first :: rest => Expr.readItems what opener (first :: rest)
  termination_by 3 * tokens.length + 3
  decreasing_by omega

/-- Reads the expressions between commas; `before` is the comma or bracket in
    front of the tokens. -/
def Expr.readItems (what : Text) (before : Token) (tokens : List Token) :
    Except Failure (List Expr) :=
  match _hs : splitItem 0 tokens with
  | (item, none) =>
    if item.isEmpty then .error (.ofCause (.missingItem what) before.span)
    else do return [← Expr.readWhole item]
  | (item, some (comma, rest)) =>
    if item.isEmpty then .error (.ofCause (.missingItem what) comma.span)
    else do
      let first ← Expr.readWhole item
      let others ← Expr.readItems what comma rest
      return first :: others
  termination_by 3 * tokens.length + 2
  decreasing_by
    · have := length_splitItem 0 tokens
      simp only [_hs] at this
      omega
    · have := length_splitItem 0 tokens
      simp only [_hs] at this
      omega
    · have := length_rest_splitItem _hs
      omega

end

/-- A step that succeeds has a first part that succeeds. -/
theorem exists_of_bind_eq_ok {ε α β : Type} {x : Except ε α} {f : α → Except ε β} {b : β}
    (h : (x >>= f) = .ok b) : ∃ a, x = .ok a ∧ f a = .ok b := by
  cases x with
  | error e => cases h
  | ok a => exact ⟨a, rfl, h⟩

/-- An expression leaves fewer tokens than it was read from. -/
theorem Expr.length_rest_read {tokens : List Token} {reading : Reading}
    (h : Expr.read tokens = .ok (some reading)) : reading.rest.length < tokens.length := by
  unfold Expr.read at h
  split at h
  · simp at h
  · rename_i t rest
    simp only [List.length_cons]
    split at h
    · split at h
      · simp at h
      · rename_i g hg
        have := Group.length_take hg
        split at h
        · split at h
          · obtain ⟨l, _, h⟩ := exists_of_bind_eq_ok h
            obtain ⟨r, _, h⟩ := exists_of_bind_eq_ok h
            cases h
            simp only
            omega
          · simp at h
        · simp at h
    · split at h
      · split at h
        · simp at h
        · rename_i g hg
          have := Group.length_take hg
          obtain ⟨items, _, h⟩ := exists_of_bind_eq_ok h
          cases h
          simp only
          omega
      · split at h
        · obtain ⟨n, _, h⟩ := exists_of_bind_eq_ok h
          cases h
          simp
        · split at h
          · split at h
            · cases h
              simp
            · rename_i opener more
              split at h
              · split at h
                · simp at h
                · rename_i g hg
                  have := Group.length_take hg
                  obtain ⟨index, _, h⟩ := exists_of_bind_eq_ok h
                  cases h
                  simp only [List.length_cons]
                  omega
              · cases h
                simp
          · simp at h

/-- The head of a declaration, up to its equals sign, and the tokens after it. -/
structure DeclarationHead where
  type : Token
  argument : Option Token
  name : Token
  equals : Token
  rest : List Token

/-- The tokens start a declaration: their third is an equals sign, or they give a
    type argument between angle brackets, a name and an equals sign. -/
def DeclarationHead.read? : List Token → Option DeclarationHead
  | type :: a :: b :: c :: d :: e :: rest =>
    if a.value = "<" ∧ c.value = ">" ∧ e.value = "=" then some ⟨type, some b, d, e, rest⟩
    else if b.value = "=" then some ⟨type, none, a, b, c :: d :: e :: rest⟩
    else none
  | type :: name :: equals :: rest =>
    if equals.value = "=" then some ⟨type, none, name, equals, rest⟩ else none
  | _ => none

theorem DeclarationHead.length_rest_read {tokens : List Token} {head : DeclarationHead}
    (h : read? tokens = some head) : head.rest.length < tokens.length := by
  unfold read? at h
  split at h
  · split at h
    · cases h
      simp only [List.length_cons]
      omega
    · split at h
      · cases h
        simp
      · simp at h
  · split at h
    · cases h
      simp only [List.length_cons]
      omega
    · simp at h
  · simp at h

/-- Reads the expression after an equals sign. -/
def readValue (equals : Token) (tokens : List Token) : Except Failure Reading := do
  match ← Expr.read tokens with
  | some reading => return reading
  | none =>
    match tokens with
    | t :: _ => .error (.ofCause .invalidExpression t.span)
    | [] =>
      .error (.ofCause (.expected (Text.join ["expression after ", equals.value])) equals.span)

theorem length_rest_readValue {equals : Token} {tokens : List Token} {reading : Reading}
    (h : readValue equals tokens = .ok reading) : reading.rest.length < tokens.length := by
  obtain ⟨found, hfound, h⟩ := exists_of_bind_eq_ok h
  split at h
  · cases h
    exact Expr.length_rest_read hfound
  · split at h <;> cases h

/-- Reads the declaration that a head starts. -/
def Declaration.read (head : DeclarationHead) : Except Failure (Declaration × List Token) := do
  let value ← readValue head.equals head.rest
  let declaration :=
    { typeName := head.type.value
      typeSpan := head.type.span
      argument := head.argument
      name := head.name.value
      nameSpan := head.name.span
      value := value.expr
      span := head.type.span.merge value.last.span }
  return (declaration, value.rest)

/-- The failure for an index that no equals sign follows. -/
def expectedEquals (close : Token) : List Token → Failure
  | [] => .ofCause (.expectedInstead "=" "end of input") close.span
  | t :: _ => .ofCause (.expectedInstead "=" t.value) t.span

/-- Reads the value of an assignment after its equals sign. -/
def Assignment.readValueOf (name : Token) (index : Option Expr) (equals : Token)
    (tokens : List Token) : Except Failure (Assignment × List Token) := do
  let value ← readValue equals tokens
  let assignment :=
    { name := name.value
      nameSpan := name.span
      index
      value := value.expr
      span := name.span.merge value.last.span }
  return (assignment, value.rest)

/-- Reads an assignment to an element after its opening bracket. -/
def Assignment.readElement (name opener : Token) (tokens : List Token) :
    Except Failure (Assignment × List Token) := do
  let g ← Group.take opener "]" tokens
  let index ← Expr.readIndex opener g.close g.inside
  match g.rest with
  | equals :: rest =>
    if equals.value = "=" then readValueOf name (some index) equals rest
    else .error (expectedEquals g.close (equals :: rest))
  | [] => .error (expectedEquals g.close [])

/-- The arguments of a call, its span and the tokens after it. -/
structure CallHead where
  arguments : List Expr
  span : Span
  rest : List Token

/-- Reads the arguments of a call after its opening parenthesis. -/
def CallHead.read (name opener : Token) (tokens : List Token) : Except Failure CallHead := do
  let g ← Group.take opener ")" tokens
  let arguments ← Expr.readList "argument" opener g.inside
  return ⟨arguments, name.span.merge g.close.span, g.rest⟩

/-- The front of a statement: all of it, or a call without its blocks. -/
inductive Front where
  | whole (s : Stmt)
  | call (name : Text) (arguments : List Expr) (span : Span)

/-- Reads the front of a statement. -/
def Front.read (tokens : List Token) : Except Failure (Front × List Token) :=
  match DeclarationHead.read? tokens with
  | some head => do
    let (declaration, rest) ← Declaration.read head
    return (.whole (.declaration declaration), rest)
  | none =>
    match tokens with
    | [] => .error (.ofCause (.unrecognizedStatement []) Span.none)
    | [t] => .error (.ofCause (.unrecognizedStatement t.value) t.span)
    | name :: next :: rest =>
      if next.value = "=" then do
        let (assignment, rest) ← Assignment.readValueOf name none next rest
        return (.whole (.assignment assignment), rest)
      else if next.value = "[" then do
        let (assignment, rest) ← Assignment.readElement name next rest
        return (.whole (.assignment assignment), rest)
      else if next.value = "(" then do
        let head ← CallHead.read name next rest
        return (.call name.value head.arguments head.span, head.rest)
      else .error (.ofCause (.unrecognizedStatement name.value) name.span)

theorem Declaration.length_rest_read {head : DeclarationHead} {d : Declaration}
    {rest : List Token} (h : Declaration.read head = .ok (d, rest)) :
    rest.length < head.rest.length := by
  obtain ⟨value, hvalue, h⟩ := exists_of_bind_eq_ok h
  cases h
  exact length_rest_readValue hvalue

theorem Assignment.length_rest_readValueOf {name equals : Token} {index : Option Expr}
    {tokens rest : List Token} {a : Assignment}
    (h : readValueOf name index equals tokens = .ok (a, rest)) : rest.length < tokens.length := by
  obtain ⟨value, hvalue, h⟩ := exists_of_bind_eq_ok h
  cases h
  exact length_rest_readValue hvalue

theorem Assignment.length_rest_readElement {name opener : Token} {tokens rest : List Token}
    {a : Assignment} (h : readElement name opener tokens = .ok (a, rest)) :
    rest.length < tokens.length := by
  obtain ⟨g, hg, h⟩ := exists_of_bind_eq_ok h
  obtain ⟨index, _, h⟩ := exists_of_bind_eq_ok h
  have hlength := Group.length_take hg
  split at h
  · rename_i equals more hrest
    split at h
    · have := length_rest_readValueOf h
      simp only [hrest, List.length_cons] at hlength
      omega
    · cases h
  · cases h

theorem CallHead.length_rest_read {name opener : Token} {tokens : List Token} {head : CallHead}
    (h : read name opener tokens = .ok head) : head.rest.length < tokens.length := by
  obtain ⟨g, hg, h⟩ := exists_of_bind_eq_ok h
  obtain ⟨arguments, _, h⟩ := exists_of_bind_eq_ok h
  have := Group.length_take hg
  cases h
  simp only
  omega

/-- The front of a statement leaves fewer tokens than it was read from. -/
theorem Front.length_rest_read {tokens rest : List Token} {front : Front}
    (h : read tokens = .ok (front, rest)) : rest.length < tokens.length := by
  unfold read at h
  split at h
  · rename_i head hhead
    obtain ⟨⟨d, left⟩, hd, h⟩ := exists_of_bind_eq_ok h
    have := DeclarationHead.length_rest_read hhead
    have := Declaration.length_rest_read hd
    cases h
    omega
  · split at h
    · cases h
    · cases h
    · simp only [List.length_cons]
      split at h
      · obtain ⟨⟨a, left⟩, ha, h⟩ := exists_of_bind_eq_ok h
        have := Assignment.length_rest_readValueOf ha
        cases h
        omega
      · split at h
        · obtain ⟨⟨a, left⟩, ha, h⟩ := exists_of_bind_eq_ok h
          have := Assignment.length_rest_readElement ha
          cases h
          omega
        · split at h
          · obtain ⟨head, hhead, h⟩ := exists_of_bind_eq_ok h
            have := CallHead.length_rest_read hhead
            cases h
            omega
          · cases h

/-- The label of a block, its first token, its opening brace and what follows. -/
structure BlockHead where
  name : Text
  first : Token
  opener : Token
  rest : List Token

/-- The tokens start a block: a brace, or an identifier and a brace. -/
def BlockHead.read? : List Token → Option BlockHead
  | [] => none
  | [t] => if t.value = "\x7b" then some ⟨Block.defaultName, t, t, []⟩ else none
  | t :: next :: rest =>
    if t.value = "\x7b" then some ⟨Block.defaultName, t, t, next :: rest⟩
    else if isIdentifier t.value ∧ next.value = "\x7b" then some ⟨t.value, t, next, rest⟩
    else none

theorem BlockHead.length_rest_read {tokens : List Token} {head : BlockHead}
    (h : read? tokens = some head) : head.rest.length < tokens.length := by
  unfold read? at h
  split at h
  · cases h
  · split at h <;> cases h
    simp
  · split at h
    · cases h
      simp
    · split at h <;> cases h
      simp only [List.length_cons]
      omega

mutual

/-- Reads statements until the tokens end. -/
def Stmt.readAll (tokens : List Token) : Except Failure (List Stmt) :=
  match tokens with
  | [] => .ok []
  | t :: more =>
    match _hf : Front.read (t :: more) with
    | .error f => .error f
    | .ok (.whole s, rest) => do return s :: (← Stmt.readAll rest)
    | .ok (.call name arguments span, rest) => do
      let (blocks, others) ← Block.readAll rest
      return .call name arguments blocks span :: others
  termination_by 2 * tokens.length
  decreasing_by
    · have := Front.length_rest_read _hf
      omega
    · have := Front.length_rest_read _hf
      omega

/-- Reads the blocks of a call and the statements after them. -/
def Block.readAll (tokens : List Token) : Except Failure (List Block × List Stmt) :=
  match _hh : BlockHead.read? tokens with
  | none => do return ([], ← Stmt.readAll tokens)
  | some head =>
    match _hg : Group.take head.opener "\x7d" head.rest with
    | .error f => .error f
    | .ok g => do
      let body ← Stmt.readAll g.inside
      let (blocks, others) ← Block.readAll g.rest
      return (.mk head.name body (head.first.span.merge g.close.span) :: blocks, others)
  termination_by 2 * tokens.length + 1
  decreasing_by
    · omega
    · have := BlockHead.length_rest_read _hh
      have := Group.length_take _hg
      omega
    · have := BlockHead.length_rest_read _hh
      have := Group.length_take _hg
      omega

end

/-- The tokens after the comment that is open in front of them, if it ends. -/
def skipComment? : List Token → Option (List Token)
  | [] => none
  | t :: rest => if t.value = "*/" then some rest else skipComment? rest

theorem length_skipComment {tokens rest : List Token} (h : skipComment? tokens = some rest) :
    rest.length < tokens.length := by
  induction tokens with
  | nil => cases h
  | cons t tail ih =>
    unfold skipComment? at h
    split at h
    · cases h
      simp
    · have := ih h
      simp only [List.length_cons]
      omega

/-- The tokens outside comments. A comment that does not end and an end without
    a comment are failures. -/
def stripComments (tokens : List Token) : Except Failure (List Token) :=
  match tokens with
  | [] => .ok []
  | t :: rest =>
    if t.value = "/*" then
      match _hs : skipComment? rest with
      | none => .error (.ofCause (.expected "*/") t.span)
      | some after => stripComments after
    else if t.value = "*/" then .error (.ofCause (.unexpected "*/") t.span)
    else do return t :: (← stripComments rest)
  termination_by tokens.length
  decreasing_by
    · have := length_skipComment _hs
      simp only [List.length_cons]
      omega
    · simp

/-- The program that the tokens spell. -/
def Program.ofTokens (tokens : List Token) : Except Failure Program := do
  return ⟨← Stmt.readAll (← stripComments tokens)⟩

/-- The program of a source text. -/
def Program.ofSource (source : Text) : Except Failure Program :=
  Program.ofTokens (Token.ofSource source)

end Goat
