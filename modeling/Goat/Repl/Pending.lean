import Goat.Text.Basic

/-!
# Unfinished entries

An entry goes on to the next line while a comment, a brace, a bracket or a
parenthesis is open.
-/

namespace Goat.Entry

/-- How a byte outside comments changes the number of open brackets. -/
def nesting (b : UInt8) : Int :=
  if b = 0x7b || b = 0x5b || b = 0x28 then 1
  else if b = 0x7d || b = 0x5d || b = 0x29 then -1
  else 0

/-- Whether more is needed after the rest of an entry, `depth` brackets being open
    and, if `inComment`, a comment. -/
def isOpenFrom (inComment : Bool) (depth : Int) : Text → Bool
  | [] => inComment || 0 < depth
  | [b] => inComment || 0 < depth + nesting b
  | b :: c :: rest =>
    if inComment then
      if b = 0x2a && c = 0x2f then isOpenFrom false depth rest
      else isOpenFrom true depth (c :: rest)
    else if b = 0x2f && c = 0x2a then isOpenFrom true depth rest
    else isOpenFrom false (depth + nesting b) (c :: rest)

/-- The entry needs more lines. -/
def isOpen (entry : Text) : Bool := isOpenFrom false 0 entry

end Goat.Entry
