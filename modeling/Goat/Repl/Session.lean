import Goat.Compilation.Basic
import Goat.Machine.Basic

/-!
# Sessions

A session is a program that grows by one entry at a time. Every entry is compiled
together with all that was accepted before it, and the whole program is run
again; only the output beyond that of the run before is reported.
-/

namespace Goat

/-- The program entered so far, with its input and the output it gave last. -/
structure Session where
  config : Machine.Config := {}
  /-- The accepted entries, oldest first. -/
  entries : List Text := []
  input : Text := []
  output : Text := []
  /-- The compilation of the accepted entries, if there are any. -/
  last : Option Compilation := none

namespace Session

/-- Why an entry was refused. -/
inductive Refusal where
  /-- The program with the entry at its end does not compile. -/
  | rejected (failure : Failure) (source : Text)
  /-- The compiled program cannot be loaded. -/
  | unloadable (error : Machine.LoadError)
  /-- The program failed when it was run. -/
  | faulted (fault : Machine.Fault)
  /-- The run needs more fuel than it was given. -/
  | unfinished

/-- What the user reads when an entry is refused. -/
def Refusal.message : Refusal → Text
  | rejected failure source => failure.renderSource source
  | unloadable error => Text.join ["runtime: ", error.message]
  | faulted fault => Text.join ["runtime: ", fault.message]
  | unfinished => "runtime: out of fuel"

/-- The entries one below the other. -/
def sourceOf (entries : List Text) : Text := Text.intercalate Text.newline entries

/-- The accepted program. -/
def source (s : Session) : Text := sourceOf s.entries

/-- The part of an output that goes beyond an earlier one, or all of it if it does
    not continue the earlier one. -/
def beyond (earlier output : Text) : Text := (Text.dropHead? earlier output).getD output

/-- The complete output of a compiled program. -/
def outputOf (config : Machine.Config) (input : Text) (fuel : Nat) (c : Compilation) :
    Except Refusal Text :=
  match Machine.Code.load c.text with
  | .error e => .error (.unloadable e)
  | .ok code =>
    match (Machine.start config input).run code fuel with
    | (.finished, m) => .ok m.output.toList
    | (.failed fault, _) => .error (.faulted fault)
    | (.outOfFuel _, _) => .error .unfinished

/-- Accepts an entry and reports its new output, or refuses it and stays as it was.
    A run may take `fuel` instructions. -/
def eval (fuel : Nat) (s : Session) (entry : Text) : Except Refusal Text × Session :=
  let entries := s.entries ++ [entry]
  match compile (sourceOf entries) with
  | .error failure => (.error (.rejected failure (sourceOf entries)), s)
  | .ok c =>
    match outputOf s.config s.input fuel c with
    | .error refusal => (.error refusal, s)
    | .ok output => (.ok (beyond s.output output), { s with entries, output, last := some c })

/-- Replaces the input of the program; the next entry reports its output from the start. -/
def setInput (s : Session) (input : Text) : Session := { s with input, output := [] }

/-- Forgets all accepted entries. -/
def reset (s : Session) : Session := { s with entries := [], output := [], last := none }

end Session

end Goat
