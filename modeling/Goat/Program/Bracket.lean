import Goat.Diagnostic.Failure
import Goat.Identifier
import Goat.Token

/-!
# Brackets

How a row of tokens is taken apart along its brackets: the group between an
opening bracket and its partner, the items between commas, the operands between
parentheses. Nothing is lost: the parts, written one after the other, are the
row they were taken from.
-/

namespace Goat

open Diagnostic

/-- The closing bracket that goes with an opening one. -/
def closerOf? (value : Text) : Option Text :=
  if value = "(" then some ")"
  else if value = "\x7b" then some "\x7d"
  else if value = "[" then some "]"
  else none

/-- The value is a closing bracket. -/
def isCloser (value : Text) : Bool := value == ")" || value == "\x7d" || value == "]"

/-- The tokens after an opening bracket: those up to its partner, the partner and
    the rest. -/
structure Group where
  inside : List Token
  close : Token
  rest : List Token
  deriving DecidableEq, Repr

/-- Looks for the partner of an opening bracket. `want` is the closing bracket
    that the innermost open bracket needs, `outer` those of the brackets around
    it, `seen` the tokens passed so far, in reverse, and `last` the latest of
    them or the opening bracket. -/
def Group.takeFrom (outer : List Text) (want : Text) (seen : List Token) (last : Token) :
    List Token → Except Failure Group
  | [] => .error (.ofCause (.expected want) last.span)
  | t :: rest =>
    match closerOf? t.value with
    | some closer => takeFrom (want :: outer) closer (t :: seen) t rest
    | none =>
      if isCloser t.value then
        if t.value = want then
          match outer with
          | [] => .ok ⟨seen.reverse, t, rest⟩
          | next :: outer => takeFrom outer next (t :: seen) t rest
        else .error (.ofCause (.expectedInstead want t.value) t.span)
      else takeFrom outer want (t :: seen) t rest

/-- The group that `opener`, whose partner is `closer`, opens in front of `tokens`. -/
def Group.take (opener : Token) (closer : Text) (tokens : List Token) : Except Failure Group :=
  takeFrom [] closer [] opener tokens

/-- The tokens passed and those left are the ones given. -/
theorem Group.takeFrom_eq_ok {outer : List Text} {want : Text} {seen : List Token} {last : Token}
    {tokens : List Token} {g : Group} (h : takeFrom outer want seen last tokens = .ok g) :
    g.inside ++ g.close :: g.rest = seen.reverse ++ tokens := by
  induction tokens generalizing outer want seen last with
  | nil => simp [takeFrom] at h
  | cons t rest ih =>
    unfold takeFrom at h
    split at h
    · simpa using ih h
    · split at h
      · split at h
        · split at h
          · cases h
            rfl
          · simpa using ih h
        · simp at h
      · simpa using ih h

/-- A group, its closing bracket and the rest are the tokens given. -/
theorem Group.take_eq_ok {opener : Token} {closer : Text} {tokens : List Token} {g : Group}
    (h : take opener closer tokens = .ok g) : g.inside ++ g.close :: g.rest = tokens := by
  simpa using takeFrom_eq_ok h

/-- The group and the rest are shorter than the tokens given. -/
theorem Group.length_take {opener : Token} {closer : Text} {tokens : List Token} {g : Group}
    (h : take opener closer tokens = .ok g) :
    g.inside.length + g.rest.length < tokens.length := by
  have := congrArg List.length (take_eq_ok h)
  simp only [List.length_append, List.length_cons] at this
  omega

/-- The bracket depth after a token. -/
def depthAfter (depth : Nat) (t : Token) : Nat :=
  if (closerOf? t.value).isSome then depth + 1
  else if isCloser t.value then depth - 1
  else depth

/-- The tokens up to the first comma outside brackets and, if there is one, the
    comma with what follows it. -/
def splitItem (depth : Nat) : List Token → List Token × Option (Token × List Token)
  | [] => ([], none)
  | t :: rest =>
    if t.value = "," ∧ depth = 0 then ([], some (t, rest))
    else
      let (item, more) := splitItem (depthAfter depth t) rest
      (t :: item, more)

/-- An item is no longer than the tokens it was taken from. -/
theorem length_splitItem (depth : Nat) (tokens : List Token) :
    (splitItem depth tokens).1.length ≤ tokens.length := by
  induction tokens generalizing depth with
  | nil => simp [splitItem]
  | cons t rest ih =>
    unfold splitItem
    split
    · simp
    · simpa using ih (depthAfter depth t)

/-- What follows the comma is shorter than the tokens it was taken from. -/
theorem length_rest_splitItem {depth : Nat} {tokens item rest : List Token} {comma : Token}
    (h : splitItem depth tokens = (item, some (comma, rest))) : rest.length < tokens.length := by
  induction tokens generalizing depth item with
  | nil => simp [splitItem] at h
  | cons t tail ih =>
    unfold splitItem at h
    split at h
    · cases h
      simp
    · obtain ⟨_, hmore⟩ := Prod.mk.inj h
      have := ih (Prod.ext rfl hmore)
      simp only [List.length_cons]
      omega

/-- The next token is an opening square bracket. -/
def opensIndex : List Token → Bool
  | [] => false
  | t :: _ => decide (t.value = "[")

/-- Splits what stands between parentheses into operands and operators: a group
    in parentheses or brackets, a name with its index, or a single token. `item`
    is the operand being read, in reverse, inside `depth` brackets. -/
def operandsFrom (depth : Nat) (item : List Token) : List Token → List (List Token)
  | [] => if item.isEmpty then [] else [item.reverse]
  | t :: rest =>
    if depth = 0 then
      if t.value = "(" ∨ t.value = "[" then operandsFrom 1 (t :: item) rest
      else if isIdentifier t.value && opensIndex rest then operandsFrom 0 (t :: item) rest
      else (t :: item).reverse :: operandsFrom 0 [] rest
    else if depthAfter depth t = 0 then (t :: item).reverse :: operandsFrom 0 [] rest
    else operandsFrom (depthAfter depth t) (t :: item) rest

/-- The operands and operators between parentheses. -/
def operands (tokens : List Token) : List (List Token) := operandsFrom 0 [] tokens

theorem flatten_operandsFrom (depth : Nat) (item tokens : List Token) :
    (operandsFrom depth item tokens).flatten = item.reverse ++ tokens := by
  induction tokens generalizing depth item with
  | nil => cases item <;> simp [operandsFrom]
  | cons t rest ih =>
    unfold operandsFrom
    repeat' split
    all_goals simp [ih]

/-- The operands and operators are the tokens given. -/
theorem flatten_operands (tokens : List Token) : (operands tokens).flatten = tokens := by
  simp [operands, flatten_operandsFrom]

end Goat
