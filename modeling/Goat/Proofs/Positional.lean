import Goat.Proofs.SyntaxErrors

/-!
# Reading by positions

A second reader of programs. It keeps the tokens in one row and goes through them by positions,
looks tokens up where the position is known to be right from a check made elsewhere, and hands
ranges of positions down to the readers of the parts. Whatever could go wrong on the way is
checked and is a `Fault`: a position that has no token, a step that does not go forward, an inner
range that is not smaller than the one around it. Because of the last two checks the reader ends
on every input.
-/

namespace Goat

open Diagnostic

/-- A failure of syntax. -/
abbrev SyntaxError := { f : Failure // f.kind = .syntaxError }

/-- The positions from `start` up to `stop`, which is exclusive. -/
structure TokenRange where
  start : Nat
  stop : Nat
  deriving DecidableEq, Repr

namespace TokenRange

/-- The number of positions. -/
def length (r : TokenRange) : Nat := r.stop - r.start

/-- The range is a part of another one and smaller. -/
def Inside (inner outer : TokenRange) : Prop :=
  outer.start ≤ inner.start ∧ inner.stop ≤ outer.stop ∧ inner.length < outer.length

instance (inner outer : TokenRange) : Decidable (inner.Inside outer) := by
  unfold Inside
  infer_instance

end TokenRange

/-- What a reader that goes by positions must not do. -/
inductive Fault where
  /-- No token has the position. -/
  | outside (position : Nat)
  /-- The token in front of the first one is looked up. -/
  | beforeFirst
  /-- The innermost open bracket is looked up where none is open. -/
  | unopened
  /-- The next position is not beyond the one before. -/
  | stuck (position next : Nat)
  /-- A part is read from a range that is not smaller than that of the whole. -/
  | widening (outer inner : TokenRange)
  deriving DecidableEq, Repr

/-- A step of reading by positions: a fault, a failure of syntax or a result. -/
abbrev Positional := ExceptT SyntaxError (Except Fault)

namespace Positional

variable {α : Type}

/-- Stops at a fault. -/
def fault (f : Fault) : Positional α := ExceptT.mk (.error f)

/-- Rejects the tokens. -/
def fail (cause : Cause) (span : Span) (h : cause.kind = .syntaxError := by rfl) : Positional α :=
  throw ⟨.ofCause cause span, (Failure.kind_ofCause cause span).trans h⟩

/-- Goes on at a later position. -/
def advance (position next : Nat) (step : position < next → Positional α) : Positional α :=
  if h : position < next then step h else fault (.stuck position next)

/-- The closing bracket of the innermost open bracket, of those that are open. -/
def innermost : List Text → Positional Text
  | [] => fault .unopened
  | want :: _ => return want

section Tokens

variable (tokens : List Token)

/-- The token at a position. -/
def tokenAt (i : Nat) : Positional Token :=
  match tokens[i]? with
  | some t => return t
  | none => fault (.outside i)

/-- The token in front of a position. -/
def tokenBefore : Nat → Positional Token
  | 0 => fault .beforeFirst
  | i + 1 => tokenAt tokens i

/-- The value of the token at a position, or nothing beyond `stop`. -/
def valueAt (i stop : Nat) : Positional Text := do
  if i < stop then return (← tokenAt tokens i).value
  else return []

/-- The span of the last token in front of `stop`. -/
def lastSpan (stop : Nat) : Positional Span := do
  if 0 < stop ∧ stop ≤ tokens.length then return (← tokenBefore tokens stop).span
  else return Span.none

/-- The span from one token to another. -/
def spanOf (first last : Nat) : Positional Span := do
  return (← tokenAt tokens first).span.merge (← tokenAt tokens last).span

/-- The span from a token to the last one in front of a position. -/
def spanUpTo (first next : Nat) : Positional Span := do
  return (← tokenAt tokens first).span.merge (← tokenBefore tokens next).span

/-- Looks from position `i` on for the bracket that closes the outermost of the open brackets;
    `open'` holds the closing brackets that they need, the innermost first. -/
def partnerFrom (stop : Nat) (open' : List Text) (i : Nat) : Positional Nat :=
  if _h : i < stop then do
    let t ← tokenAt tokens i
    match closerOf? t.value with
    | some closer => partnerFrom stop (closer :: open') (i + 1)
    | none =>
      if isCloser t.value then
        let want ← innermost open'
        if t.value = want then
          if open'.tail.isEmpty then return i else partnerFrom stop open'.tail (i + 1)
        else fail (.expectedInstead want t.value) t.span
      else partnerFrom stop open' (i + 1)
  else do
    let want ← innermost open'
    fail (.expected want) (← lastSpan tokens stop)
  termination_by stop - i

/-- The position of the bracket that closes the one at `opener`, in front of `stop`. -/
def partner (opener stop : Nat) : Positional Nat := do
  let t ← tokenAt tokens opener
  partnerFrom tokens stop [(closerOf? t.value).getD []] (opener + 1)

section Expressions

variable (recur : TokenRange → Positional (Option Expr × Nat))

/-- Reads an expression that takes all of a range. -/
def readWhole (r : TokenRange) : Positional Expr := do
  let (found, next) ← recur r
  match found with
  | none => fail .invalidExpression (← tokenAt tokens r.start).span
  | some e =>
    if next = r.stop then return e
    else
      let t ← tokenAt tokens next
      fail (.unexpected t.value) t.span

/-- Reads the expression between the brackets of an index. -/
def readIndex (opener close : Nat) : Positional Expr := do
  if close = opener + 1 then fail .invalidIndex (← spanOf tokens opener close)
  else
    let (found, next) ← recur ⟨opener + 1, close⟩
    match found with
    | none => fail .invalidIndex (← tokenAt tokens (opener + 1)).span
    | some e =>
      if next = close then return e
      else fail .invalidIndex (← tokenAt tokens next).span

/-- Reads the expressions between commas up to `close`: the item being read starts at `start`, and
    position `k` is looked at next. -/
def readItems (close : Nat) (what : Text) (start k : Nat) : Positional (List Expr) :=
  if _h : k ≤ close then do
    let t ← tokenAt tokens k
    if (closerOf? t.value).isSome ∧ k < close then
      let last ← partner tokens k close
      advance k (last + 1) fun _ => readItems close what start (last + 1)
    else if t.value ≠ "," ∧ k ≠ close then readItems close what start (k + 1)
    else if k = start then
      if t.value = "," then fail (.missingItem what) t.span
      else fail (.missingItem what) (← tokenBefore tokens k).span
    else
      let item ← readWhole tokens recur ⟨start, k⟩
      let others ← readItems close what (k + 1) (k + 1)
      return item :: others
  else return []
  termination_by close + 1 - k

/-- Reads the expressions between the brackets of a list or call. -/
def readList (opener close : Nat) (what : Text) : Positional (List Expr) :=
  if close = opener + 1 then return []
  else readItems tokens recur close what (opener + 1) (opener + 1)

/-- The position after the operand or operator that starts at `k`. -/
def operandEnd (close k : Nat) : Positional Nat := do
  let t ← tokenAt tokens k
  if t.value = "(" ∨ t.value = "[" then return (← partner tokens k close) + 1
  else
    let next ← valueAt tokens (k + 1) close
    if isIdentifier t.value ∧ next = "[" then return (← partner tokens (k + 1) close) + 1
    else return k + 1

/-- The ranges of the operands and operators from `k` up to `close`. -/
def operandRanges (close k : Nat) : Positional (List TokenRange) :=
  if _h : k < close then do
    let next ← operandEnd tokens close k
    advance k next fun _ => return ⟨k, next⟩ :: (← operandRanges close next)
  else return []
  termination_by close - k

/-- Reads the operands and the operator between the parentheses at `opener` and `close`. -/
def readOperands (opener close : Nat) : Positional Expr := do
  let items ← operandRanges tokens close (opener + 1)
  match items with
  | [left, op, right] =>
    let t ← tokenAt tokens op.start
    match Operator.ofSymbol? t.value with
    | some operator =>
      if op.stop = op.start + 1 then
        let l ← readWhole tokens recur left
        let r ← readWhole tokens recur right
        return .binary operator l r (← spanOf tokens opener close)
      else fail (.invalidOperator t.value) t.span
    | none => fail (.invalidOperator t.value) t.span
  | _ =>
    let last ← tokenAt tokens close
    match items[3]? with
    | some fourth => fail (.operandCount items.length) (← tokenAt tokens fourth.start).span
    | none => fail (.operandCount items.length) last.span

/-- The value of a numeral, if it fits 64 bits. -/
def readNumeral (t : Token) : Positional Nat :=
  match Text.toNat? t.value with
  | some n => if n < 0x8000000000000000 then return n else fail (.invalidNumber t.value) t.span
  | none => fail (.invalidNumber t.value) t.span

/-- Reads one expression from the front of a range, and tells the position after it. The parts in
    brackets are read by `recur`. -/
def readExprWith (r : TokenRange) : Positional (Option Expr × Nat) := do
  if r.start < r.stop then
    let t ← tokenAt tokens r.start
    if t.value = "(" then
      let close ← partner tokens r.start r.stop
      let e ← readOperands tokens recur r.start close
      return (some e, close + 1)
    else if t.value = "[" then
      let close ← partner tokens r.start r.stop
      let items ← readList tokens recur r.start close "list item"
      return (some (.list items (← spanOf tokens r.start close)), close + 1)
    else if isNumeral t.value then
      let n ← readNumeral t
      return (some (.number n t.span), r.start + 1)
    else if isIdentifier t.value then
      let next ← valueAt tokens (r.start + 1) r.stop
      if next = "[" then
        let close ← partner tokens (r.start + 1) r.stop
        let index ← readIndex tokens recur (r.start + 1) close
        return (some (.element t.value index (← spanOf tokens r.start close)), close + 1)
      else return (some (.var t.value t.span), r.start + 1)
    else return (none, r.start)
  else return (none, r.start)

end Expressions

/-- Reads one expression from the front of a range, and its parts from smaller ranges. -/
def readExpr (r : TokenRange) : Positional (Option Expr × Nat) :=
  readExprWith tokens
    (fun inner => if _h : inner.Inside r then readExpr inner else fault (.widening r inner)) r
  termination_by r.length
  decreasing_by exact _h.2.2

/-- Reads the expression after the equals sign at `equals`. -/
def readValue (equals stop : Nat) : Positional (Expr × Nat) := do
  let (found, next) ← readExpr tokens ⟨equals + 1, stop⟩
  match found with
  | some e => return (e, next)
  | none =>
    if equals + 1 < stop then
      fail .invalidExpression (← tokenAt tokens (equals + 1)).span
    else
      let t ← tokenAt tokens equals
      fail (.expected (Text.join ["expression after ", t.value])) t.span

/-- A type argument, a name and an equals sign follow the token at `i`. -/
def takesArgument (i stop : Nat) : Positional Bool := do
  let less ← valueAt tokens (i + 1) stop
  let greater ← valueAt tokens (i + 3) stop
  let equals ← valueAt tokens (i + 5) stop
  return less = "<" ∧ greater = ">" ∧ equals = "="

/-- Reads the declaration at `i`. -/
def readDeclaration (i stop : Nat) : Positional (Stmt × Nat) := do
  let type ← tokenAt tokens i
  let generic ← takesArgument tokens i stop
  let argument ← if generic then some <$> tokenAt tokens (i + 2) else pure none
  let nameAt := if generic then i + 4 else i + 1
  let name ← tokenAt tokens nameAt
  let (value, next) ← readValue tokens (nameAt + 1) stop
  let declaration : Declaration :=
    { typeName := type.value
      typeSpan := type.span
      argument
      name := name.value
      nameSpan := name.span
      value
      span := ← spanUpTo tokens i next }
  return (.declaration declaration, next)

/-- Reads the assignment at `i` to the token `name`, whose index has been read and whose equals
    sign is at `equals`. -/
def readAssigned (name : Token) (i equals stop : Nat) (index : Option Expr) :
    Positional (Stmt × Nat) := do
  let (value, next) ← readValue tokens equals stop
  let assignment : Assignment :=
    { name := name.value
      nameSpan := name.span
      index
      value
      span := ← spanUpTo tokens i next }
  return (.assignment assignment, next)

/-- Reads the assignment at `i`, to a variable or to an element. -/
def readAssignment (i stop : Nat) : Positional (Stmt × Nat) := do
  let name ← tokenAt tokens i
  if (← valueAt tokens (i + 1) stop) = "[" then
    let close ← partner tokens (i + 1) stop
    let index ← readIndex tokens (readExpr tokens) (i + 1) close
    let equals ← valueAt tokens (close + 1) stop
    if equals = "=" then readAssigned tokens name i (close + 1) stop (some index)
    else
      let span ← lastSpan tokens stop
      if close + 1 < stop then
        let t ← tokenAt tokens (close + 1)
        fail (.expectedInstead "=" t.value) t.span
      else fail (.expectedInstead "=" "end of input") span
  else readAssigned tokens name i (i + 1) stop none

section Statements

variable (recur : TokenRange → Positional (List Stmt))

/-- The label and the opening brace of the block at `j`, if there is one. -/
def blockAt (stop j : Nat) : Positional (Option (Text × Nat)) := do
  let label ← valueAt tokens j stop
  if label = "\x7b" then return some (Block.defaultName, j)
  else
    let next ← valueAt tokens (j + 1) stop
    if isIdentifier label ∧ next = "\x7b" then
      return some ((← tokenAt tokens j).value, j + 1)
    else return none

/-- Reads the blocks of a call from `j` on, and tells the position after them. -/
def readBlocks (stop j : Nat) : Positional (List Block × Nat) :=
  if _h : j < stop then do
    match ← blockAt tokens stop j with
    | none => return ([], j)
    | some (name, opener) =>
      let close ← partner tokens opener stop
      let body ← recur ⟨opener + 1, close⟩
      let span ← spanOf tokens j close
      advance j (close + 1) fun _ => do
        let (blocks, next) ← readBlocks stop (close + 1)
        return (.mk name body span :: blocks, next)
  else return ([], j)
  termination_by stop - j

/-- Reads the call at `i`. -/
def readCall (i stop : Nat) : Positional (Stmt × Nat) := do
  let name ← tokenAt tokens i
  let close ← partner tokens (i + 1) stop
  let span ← spanOf tokens i close
  let arguments ← readList tokens (readExpr tokens) (i + 1) close "argument"
  let (blocks, next) ← readBlocks tokens recur stop (close + 1)
  return (.call name.value arguments blocks span, next)

/-- Reads the statement at `i`, and tells the position after it. -/
def readStmt (i stop : Nat) : Positional (Stmt × Nat) := do
  let third ← valueAt tokens (i + 2) stop
  let generic ← takesArgument tokens i stop
  if third = "=" ∨ generic then readDeclaration tokens i stop
  else
    let second ← valueAt tokens (i + 1) stop
    if second = "=" ∨ second = "[" then readAssignment tokens i stop
    else if second = "(" then readCall tokens recur i stop
    else
      let t ← tokenAt tokens i
      fail (.unrecognizedStatement t.value) t.span

/-- Reads the statements from `i` up to `stop`. Those of blocks are read by `recur`. -/
def readStmtsWith (stop i : Nat) : Positional (List Stmt) :=
  if _h : i < stop then do
    let (s, next) ← readStmt tokens recur i stop
    advance i next fun _ => return s :: (← readStmtsWith stop next)
  else return []
  termination_by stop - i

end Statements

/-- Reads the statements of a range, and those of blocks from smaller ranges. -/
def readStmts (r : TokenRange) : Positional (List Stmt) :=
  readStmtsWith tokens
    (fun inner => if _h : inner.Inside r then readStmts inner else fault (.widening r inner))
    r.stop r.start
  termination_by r.length
  decreasing_by exact _h.2.2

/-- The position of the mark that ends a comment, from `i` on, or the end of the tokens. -/
def commentEnd (i : Nat) : Positional Nat :=
  if _h : i < tokens.length then do
    let t ← tokenAt tokens i
    if t.value = "*/" then return i else commentEnd (i + 1)
  else return i
  termination_by tokens.length - i

/-- The tokens outside comments from `i` on. -/
def stripFrom (i : Nat) : Positional (List Token) :=
  if _h : i < tokens.length then do
    let t ← tokenAt tokens i
    if t.value = "/*" then
      let last ← commentEnd tokens (i + 1)
      if last = tokens.length then fail (.expected "*/") t.span
      else advance i (last + 1) fun _ => stripFrom (last + 1)
    else if t.value = "*/" then fail (.unexpected "*/") t.span
    else return t :: (← stripFrom (i + 1))
  else return []
  termination_by tokens.length - i

end Tokens

/-- Reads the program that the tokens spell. -/
def readProgram (tokens : List Token) : Positional Program := do
  let kept ← stripFrom tokens 0
  return ⟨← readStmts kept ⟨0, kept.length⟩⟩

end Positional

end Goat
