import Goat.Number.Integer
import Goat.Text.Quoted

/-!
# Flags

A command takes flags in front of its arguments. A flag is a name after one or two
dashes; its value follows after an equals sign or as the next argument. Flags that are
on or off need no value. The flags of a command fill a structure of its own.
-/

namespace Goat.Cli

/-- What a flag sets in the settings `σ` of a command. -/
inductive Flag.Target (σ : Type) where
  | text (get : σ → Text) (set : Text → σ → σ)
  | int (get : σ → Int) (set : Int → σ → σ)
  | bool (get : σ → Bool) (set : Bool → σ → σ)

/-- A flag of a command with settings `σ`. -/
structure Flag (σ : Type) where
  name : Text
  description : Text
  target : Flag.Target σ

namespace Flag

/-- Why a value does not suit a flag. -/
inductive Mismatch where
  | malformed
  | outOfRange
  deriving DecidableEq, Repr

/-- What is wrong with a value. -/
def Mismatch.description : Mismatch → Text
  | malformed => "parse error"
  | outOfRange => "value out of range"

/-- Why flags cannot be read. -/
inductive Error where
  | badSyntax (argument : Text)
  | undefined (name : Text)
  | missingValue (name : Text)
  | notBool (value name : Text)
  | mismatch (value name : Text) (cause : Mismatch)
  | helpRequested
  deriving DecidableEq, Repr

/-- The message of an error. -/
def Error.message : Error → Text
  | badSyntax argument => Text.join ["bad flag syntax: ", argument]
  | undefined name => Text.join ["flag provided but not defined: -", name]
  | missingValue name => Text.join ["flag needs an argument: -", name]
  | notBool value name =>
    Text.join ["invalid boolean value ", Text.quote value, " for -", name, ": ",
      Mismatch.malformed.description]
  | mismatch value name cause =>
    Text.join ["invalid value ", Text.quote value, " for flag -", name, ": ", cause.description]
  | helpRequested => "flag: help requested"

/-- An argument in front of the others. -/
inductive Argument where
  /-- The arguments of the command start here. -/
  | plain
  /-- Two dashes end the flags. -/
  | finish
  | malformed
  | flag (name : Text) (value : Option Text)
  deriving DecidableEq, Repr

/-- Splits the name of a flag from a value after an equals sign, which cannot come
    first. -/
def splitValue : Text → Argument
  | [] => .malformed
  | first :: rest =>
    if first = 0x2d || first = 0x3d then .malformed
    else
      let name := first :: rest.takeWhile (· ≠ 0x3d)
      match rest.dropWhile (· ≠ 0x3d) with
      | [] => .flag name none
      | _ :: value => .flag name (some value)

/-- What an argument is. -/
def Argument.ofText : Text → Argument
  | [0x2d, 0x2d] => .finish
  | 0x2d :: 0x2d :: rest => splitValue rest
  | [0x2d] => .plain
  | 0x2d :: rest => splitValue rest
  | _ => .plain

/-- A truth value as users write it. -/
def bool? (t : Text) : Option Bool :=
  if t ∈ (["1", "t", "T", "true", "TRUE", "True"] : List Text) then some true
  else if t ∈ (["0", "f", "F", "false", "FALSE", "False"] : List Text) then some false
  else none

/-- The mismatch of a text that is no integer. -/
def Mismatch.ofInteger : Integer.Error → Mismatch
  | .malformed => .malformed
  | .outOfRange => .outOfRange

/-- Whether the flag is on or off. -/
def Target.isBool {σ : Type} : Target σ → Bool
  | bool _ _ => true
  | _ => false

/-- Sets a flag to a value. -/
def setTo {σ : Type} (f : Flag σ) (value : Text) (settings : σ) : Except Error σ :=
  match f.target with
  | .text _ set => .ok (set value settings)
  | .int _ set =>
    match Integer.ofText value with
    | .ok n => .ok (set n settings)
    | .error e => .error (.mismatch value f.name (.ofInteger e))
  | .bool _ set =>
    match bool? value with
    | some b => .ok (set b settings)
    | none => .error (.notBool value f.name)

/-- The names that ask for help where no flag has them. -/
def helpNames : List Text := ["help", "h"]

/-- The flag of a name. -/
def find {σ : Type} (flags : List (Flag σ)) (name : Text) : Except Error (Flag σ) :=
  match flags.find? fun f => f.name == name with
  | some f => .ok f
  | none => .error (if name ∈ helpNames then .helpRequested else .undefined name)

/-- Reads the flags in front of the arguments; yields the settings and the arguments. -/
def parse {σ : Type} (flags : List (Flag σ)) (settings : σ) :
    List Text → Except Error (σ × List Text)
  | [] => .ok (settings, [])
  | argument :: rest =>
    match Argument.ofText argument with
    | .plain => .ok (settings, argument :: rest)
    | .finish => .ok (settings, rest)
    | .malformed => .error (.badSyntax argument)
    | .flag name given =>
      match find flags name, given with
      | .error e, _ => .error e
      | .ok f, some value => do parse flags (← f.setTo value settings) rest
      | .ok f, none =>
        if f.target.isBool then do parse flags (← f.setTo "true" settings) rest
        else
          match rest with
          | [] => .error (.missingValue name)
          | value :: rest => do parse flags (← f.setTo value settings) rest

/-- The kind of value that a flag takes, as its usage names it. -/
def Target.kindText {σ : Type} : Target σ → Text
  | text _ _ => " string"
  | int _ _ => " int"
  | bool _ _ => ""

/-- The default of a flag, unless it is empty, zero or off. -/
def Target.defaultText {σ : Type} (settings : σ) : Target σ → Text
  | text get _ =>
    if (get settings).isEmpty then []
    else Text.join [" (default ", Text.quote (get settings), ")"]
  | int get _ =>
    if get settings = 0 then [] else Text.join [" (default ", Text.ofInt (get settings), ")"]
  | bool get _ => if get settings then " (default true)" else []

/-- How a flag is used. -/
def usageText {σ : Type} (settings : σ) (f : Flag σ) : Text :=
  Text.join ["  -", f.name, f.target.kindText, "\n    \t", f.description,
    f.target.defaultText settings, Text.newline]

/-- How the flags of a command are used, by name. -/
def usage {σ : Type} (command : Text) (flags : List (Flag σ)) (defaults : σ) : Text :=
  let sorted := flags.mergeSort fun a b => Text.le a.name b.name
  Text.join ["Usage of ", command, ":\n", Text.join (sorted.map (usageText defaults))]

/-- What the user reads when flags cannot be read: the error, unless it is a request
    for help, and the usage. -/
def Error.report (e : Error) (usage : Text) : Text :=
  if e = .helpRequested then usage else Text.join [e.message, Text.newline, usage]

end Flag

end Goat.Cli
