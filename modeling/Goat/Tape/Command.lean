import Goat.Text.Basic

/-!
# Commands

The eight commands of the tape machine and the characters that spell them. Any
other character of a program text is a comment.
-/

namespace Goat

/-- A command of the tape machine. -/
inductive Command where
  /-- Adds one to the current cell. -/
  | increment
  /-- Subtracts one from the current cell. -/
  | decrement
  /-- Moves one cell to the left. -/
  | left
  /-- Moves one cell to the right. -/
  | right
  /-- Writes the current cell. -/
  | write
  /-- Reads into the current cell. -/
  | read
  /-- Starts a loop that runs while the current cell is not zero. -/
  | loopStart
  /-- Ends a loop. -/
  | loopEnd
  deriving DecidableEq, Repr

namespace Command

/-- The character of a command. -/
def toByte : Command → UInt8
  | increment => 0x2b
  | decrement => 0x2d
  | left => 0x3c
  | right => 0x3e
  | write => 0x2e
  | read => 0x2c
  | loopStart => 0x5b
  | loopEnd => 0x5d

/-- The commands in the order in which statistics list them. -/
def all : List Command := [increment, decrement, left, right, loopStart, loopEnd, write, read]

/-- The command that a character spells. -/
def ofByte? (b : UInt8) : Option Command :=
  if b = 0x2b then some increment
  else if b = 0x2d then some decrement
  else if b = 0x3c then some left
  else if b = 0x3e then some right
  else if b = 0x2e then some write
  else if b = 0x2c then some read
  else if b = 0x5b then some loopStart
  else if b = 0x5d then some loopEnd
  else none

@[simp] theorem ofByte_toByte (c : Command) : ofByte? c.toByte = some c := by
  cases c <;> rfl

/-- The commands in a text, without its comments. -/
def ofText (t : Text) : List Command := t.filterMap ofByte?

/-- The characters of commands. -/
def toText (code : List Command) : Text := code.map toByte

@[simp] theorem ofText_toText (code : List Command) : ofText (toText code) = code := by
  induction code with
  | nil => rfl
  | cons c rest ih =>
    have h : ofText (toText (c :: rest)) = c :: ofText (toText rest) := by simp [ofText, toText]
    rw [h, ih]

end Command

end Goat
