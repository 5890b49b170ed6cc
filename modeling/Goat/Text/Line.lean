import Goat.Text.Basic

/-!
# Lines of a stream

A stream is read line by line through a buffer of fixed size. A line break is a
line feed, or a carriage return with a line feed. A line that does not fit the
buffer arrives in pieces.
-/

namespace Goat.Text

/-- The number of bytes that the buffer of a line reader holds. -/
def lineCapacity : Nat := 4096

/-- What a line reader yields at once: a line without its break, or a piece of one. -/
structure Line where
  text : Text
  /-- The piece reaches to the end of its line. -/
  isWhole : Bool
  deriving DecidableEq, Repr

/-- The text without a carriage return at its end. -/
def dropReturn (t : Text) : Text := if t.getLast? = some 0x0d then t.dropLast else t

/-- The size of the first piece of a line that overflows the buffer: a carriage
    return at the end of the buffer is left for the next piece. -/
def pieceSize (t : Text) : Nat :=
  if (t.take lineCapacity).getLast? = some 0x0d then lineCapacity - 1 else lineCapacity

/-- What a line reader yields first for a non-empty stream, and what it leaves. -/
def firstLine (t : Text) : Line × Text :=
  let line := t.takeWhile (· ≠ 0x0a)
  if line.length < lineCapacity then
    match t.drop line.length with
    | [] => (⟨line, true⟩, [])
    | _ :: rest => (⟨dropReturn line, true⟩, rest)
  else (⟨t.take (pieceSize t), false⟩, t.drop (pieceSize t))

theorem pieceSize_pos (t : Text) : 0 < pieceSize t := by
  unfold pieceSize lineCapacity
  split <;> decide

theorem length_firstLine_lt (t : Text) (h : t ≠ []) : (firstLine t).2.length < t.length := by
  have hpos : 0 < t.length := List.length_pos_iff.2 h
  unfold firstLine
  simp only
  split
  · split
    · simpa using hpos
    · rename_i rest heq
      have := congrArg List.length heq
      simp only [List.length_drop, List.length_cons] at this
      show rest.length < t.length
      omega
  · have := pieceSize_pos t
    simp only [List.length_drop]
    omega

/-- Everything a line reader yields for a stream. -/
def streamLines (t : Text) : List Line :=
  if h : t = [] then [] else
    have := length_firstLine_lt t h
    (firstLine t).1 :: streamLines (firstLine t).2
termination_by t.length

end Goat.Text
