import Goat.Tape.Command

/-!
# Machine code

A program text is loaded into instructions: runs of additions and of moves are
folded into one, a loop that only counts its cell down or up to zero becomes a
single instruction, and every bracket knows the place of its partner.
-/

namespace Goat.Machine

/-- An instruction of a loaded program. -/
inductive Instruction where
  /-- Adds to the current cell. -/
  | add (amount : Int)
  /-- Moves the pointer. -/
  | move (distance : Int)
  | write
  | read
  /-- Goes on after its partner if the current cell is zero. -/
  | loopStart (partner : Nat)
  /-- Goes back after its partner unless the current cell is zero. -/
  | loopEnd (partner : Nat)
  /-- Sets the current cell to zero. -/
  | clear
  deriving DecidableEq, Repr

/-- A loaded program. -/
structure Code where
  instructions : Array Instruction
  deriving DecidableEq, Repr

/-- Why a text is no program. -/
inductive LoadError where
  /-- The closing bracket at an offset has no partner. -/
  | unmatchedEnd (offset : Nat)
  /-- Some opening brackets have no partner. -/
  | unmatchedStarts (count : Nat)
  deriving DecidableEq, Repr

/-- The message of a load error. -/
def LoadError.message : LoadError → Text
  | unmatchedEnd offset =>
    Text.join ["unbalanced brackets: unmatched ] at offset ", Text.ofNat offset]
  | unmatchedStarts count =>
    Text.join ["unbalanced brackets: ", Text.ofNat count, " unmatched ["]

namespace Code

/-- Adds to the current cell, as part of the instruction before if that adds too. -/
def pushAdd (code : Array Instruction) (amount : Int) : Array Instruction :=
  match code.back? with
  | some (.add before) => code.pop.push (.add (before + amount))
  | _ => code.push (.add amount)

/-- Moves the pointer, as part of the instruction before if that moves too. -/
def pushMove (code : Array Instruction) (distance : Int) : Array Instruction :=
  match code.back? with
  | some (.move before) => code.pop.push (.move (before + distance))
  | _ => code.push (.move distance)

/-- Loads the characters from `offset` on. `starts` are the places of the open
    brackets, the innermost first; `code` is what was loaded before. -/
def loadFrom (offset : Nat) (starts : List Nat) (code : Array Instruction) :
    List (Option Command) → Except LoadError Code
  | [] => if starts.isEmpty then .ok ⟨code⟩ else .error (.unmatchedStarts starts.length)
  | some .loopStart :: some .decrement :: some .loopEnd :: rest
  | some .loopStart :: some .increment :: some .loopEnd :: rest =>
    loadFrom (offset + 3) starts (code.push .clear) rest
  | none :: rest => loadFrom (offset + 1) starts code rest
  | some c :: rest =>
    match c with
    | .increment => loadFrom (offset + 1) starts (pushAdd code 1) rest
    | .decrement => loadFrom (offset + 1) starts (pushAdd code (-1)) rest
    | .right => loadFrom (offset + 1) starts (pushMove code 1) rest
    | .left => loadFrom (offset + 1) starts (pushMove code (-1)) rest
    | .write => loadFrom (offset + 1) starts (code.push .write) rest
    | .read => loadFrom (offset + 1) starts (code.push .read) rest
    | .loopStart => loadFrom (offset + 1) (code.size :: starts) (code.push (.loopStart 0)) rest
    | .loopEnd =>
      match starts with
      | [] => .error (.unmatchedEnd offset)
      | start :: starts =>
        let code := code.setIfInBounds start (.loopStart code.size)
        loadFrom (offset + 1) starts (code.push (.loopEnd start)) rest

/-- Loads a program text. Characters that spell no command are skipped. -/
def load (text : Text) : Except LoadError Code := loadFrom 0 [] #[] (text.map Command.ofByte?)

/-- The number of instructions. -/
def length (code : Code) : Nat := code.instructions.size

end Code

end Goat.Machine
