import Goat.Text.Basic

/-!
# Chunks

A text cut into pieces of equal size, the last of which may be shorter.
-/

namespace Goat.Text

/-- The pieces of `size + 1` bytes that a text is cut into. There is always one
    piece, and no piece but a single one is empty. -/
def chunks (size : Nat) (t : Text) : List Text :=
  match h : t.drop (size + 1) with
  | [] => [t]
  | b :: rest =>
    have : (b :: rest).length < t.length := by
      have := congrArg List.length h
      simp only [List.length_drop, List.length_cons] at this ⊢
      omega
    t.take (size + 1) :: chunks size (b :: rest)
termination_by t.length

/-- The text with a line break after every `width` bytes but at the end; a width of
    zero or below leaves it in one line. -/
def wrapAt (width : Int) (t : Text) : Text :=
  match width with
  | .ofNat (size + 1) => intercalate newline (chunks size t)
  | _ => t

end Goat.Text
