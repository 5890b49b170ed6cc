import Goat.Text.Basic

/-!
# References to the environment

A text can refer to variables of the environment, as `$` and a name in braces, with
an optional fallback after `:-`. References are replaced from left to right in one
pass; what replaces them is not looked at again.
-/

namespace Goat.Environment

/-- The values of variables; an unset variable is empty. -/
abbrev Lookup := Text → Text

/-- A reference to a variable. -/
structure Reference where
  name : Text
  fallback : Option Text
  deriving DecidableEq, Repr

/-- The value of a reference: the fallback stands in for an empty variable. -/
def Reference.value (lookup : Lookup) (r : Reference) : Text :=
  let found := lookup r.name
  if found.isEmpty then r.fallback.getD [] else found

/-- The reference as it is written. -/
def Reference.toText (r : Reference) : Text :=
  Text.join ["$\x7b", r.name, (r.fallback.map fun t => Text.join [":-", t]).getD [], "\x7d"]

/-- The byte can stand in the name of a variable. -/
def isNameByte (b : UInt8) : Bool := b != 0x7d && b != 0x3a

/-- The byte can stand in a fallback. -/
def isFallbackByte (b : UInt8) : Bool := b != 0x7d

/-- Reads what follows the name of a reference. -/
def readTail? (name : Text) : Text → Option (Reference × Text)
  | 0x7d :: rest => some (⟨name, none⟩, rest)
  | 0x3a :: 0x2d :: rest =>
    match rest.dropWhile isFallbackByte with
    | 0x7d :: after => some (⟨name, some (rest.takeWhile isFallbackByte)⟩, after)
    | _ => none
  | _ => none

/-- The reference that a text starts with, and what follows it. -/
def reference? : Text → Option (Reference × Text)
  | 0x24 :: 0x7b :: rest =>
    let name := rest.takeWhile isNameByte
    if name.isEmpty then none else readTail? name (rest.dropWhile isNameByte)
  | _ => none

theorem length_dropWhile_le {α : Type} (p : α → Bool) (l : List α) :
    (l.dropWhile p).length ≤ l.length := (List.dropWhile_sublist p).length_le

theorem length_readTail_lt {name t rest : Text} {r : Reference}
    (h : readTail? name t = some (r, rest)) : rest.length < t.length := by
  unfold readTail? at h
  split at h
  · obtain ⟨-, rfl⟩ := by simpa using h
    simp
  · rename_i tail
    split at h
    · rename_i after heq
      obtain ⟨-, rfl⟩ := by simpa using h
      have := length_dropWhile_le isFallbackByte tail
      rw [heq] at this
      simp only [List.length_cons] at this ⊢
      omega
    · simp at h
  · simp at h

theorem length_reference_lt {t rest : Text} {r : Reference}
    (h : reference? t = some (r, rest)) : rest.length < t.length := by
  unfold reference? at h
  split at h
  · rename_i tail
    simp only at h
    split at h
    · simp at h
    · have h1 := length_readTail_lt h
      have h2 := length_dropWhile_le isNameByte tail
      simp only [List.length_cons]
      omega
  · simp at h

/-- The text with the value of every reference in its place. -/
def interpolate (lookup : Lookup) (t : Text) : Text :=
  match h : reference? t with
  | some (r, rest) =>
    have := length_reference_lt h
    r.value lookup ++ interpolate lookup rest
  | none =>
    match t with
    | [] => []
    | b :: rest => b :: interpolate lookup rest
termination_by t.length

/-- The names of the variables that a text refers to. -/
def names (t : Text) : List Text :=
  match h : reference? t with
  | some (r, rest) =>
    have := length_reference_lt h
    r.name :: names rest
  | none =>
    match t with
    | [] => []
    | _ :: rest => names rest
termination_by t.length

end Goat.Environment
