import Goat.Emitter.Stmt
import Goat.Program.Parser
import Goat.Text.Grouping

/-!
# Compilation

From source text to commands of the tape machine, with the layout of the
variables and statistics on the code.
-/

namespace Goat

/-- A declared variable and its cells. -/
structure VariableInfo where
  name : Text
  type : Text
  region : Region
  deriving DecidableEq, Repr

/-- The declared variables, in order. -/
def Emitter.variableInfos (e : Emitter) : List VariableInfo :=
  e.declared.map fun (name, v) => ⟨name, v.typeName, v.region⟩

/-- Figures about emitted code. -/
structure Statistics where
  instructions : Int
  peakCells : Int
  variableCount : Int
  /-- How often each command occurs. -/
  counts : Command → Int

/-- The code of a program. -/
structure Compilation where
  code : List Command
  declared : List VariableInfo
  peakCells : Int
  deriving DecidableEq, Repr

namespace Compilation

/-- The characters of the code. -/
def text (c : Compilation) : Text := Command.toText c.code

/-- Figures about the code. -/
def statistics (c : Compilation) : Statistics :=
  { instructions := c.code.length
    peakCells := c.peakCells
    variableCount := c.declared.length
    counts := fun command => c.code.count command }

end Compilation

/-- The statistics as a list of figures, with digits grouped as the locale asks. -/
def Statistics.format (s : Statistics) (locale : Locale) : Text :=
  let line (label : Text) (n : Int) : Text :=
    Text.join [label, Text.ofIntGrouped locale.groupSeparator n, Text.newline]
  Text.join [line "instructions: " s.instructions, line "peak cells:   " s.peakCells,
    line "variables:    " s.variableCount,
    Command.all.flatMap fun c => line (Text.join ["  ", [c.toByte], " "]) (s.counts c)]

/-- Compiles a source text. Yields the compilation or the failure, and the trace of
    the emission up to there. -/
def compileTraced (source : Text) : Except Failure Compilation × List Text :=
  match Program.ofSource source with
  | .error f => (.error f, [])
  | .ok program =>
    match Emitter.run {} (emitProgram program) with
    | (.error f, e) => (.error f, e.trace.toList)
    | (.ok (), e) => (.ok ⟨e.code.toList, e.variableInfos, e.layout.peak⟩, e.trace.toList)

/-- Compiles a source text. -/
def compile (source : Text) : Except Failure Compilation := (compileTraced source).1

/-- The failure, in the file if that has a name. -/
def Failure.inFileIfNamed (f : Failure) (file : Text) : Failure :=
  if file.isEmpty then f else f.inFile file

/-- The label in front of trace lines. -/
def traceLabel : Text := "[TRACE]"

/-- The version of the compiler. -/
def version : Text := "0.4.0"

end Goat
