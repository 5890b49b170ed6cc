import Goat.Span
import Goat.Text.Blank
import Goat.Text.Quoted

/-!
# Tokens

A source line is cut before and after every delimiter. The pieces that hold
more than white space are the tokens; reading tokens never fails.
-/

namespace Goat

/-- A piece of source text with its position. -/
structure Token where
  value : Text
  span : Span
  deriving DecidableEq, Repr

namespace Token

/-- The token as messages show it: the quoted value and its position. -/
def toText (t : Token) : Text := Text.join [Text.quote t.value, "@", t.span.toText]

/-- The delimiters of two characters. -/
def pairs : List Text := ["/*", "*/", "==", "!=", "<=", ">="]

/-- The delimiters of one character. -/
def singles : Text := " \t\r()\x7b\x7d[],<>=+-*/^"

/-- The two bytes form a delimiter. -/
def isPair (a b : UInt8) : Bool := decide ([a, b] ∈ pairs)

/-- The byte alone is a delimiter. -/
def isSingle (a : UInt8) : Bool := decide (a ∈ singles)

/-- Cuts a text before and after every delimiter, a delimiter of two characters
    going first. `word` is the piece being read, in reverse. Some pieces may be
    empty; written one after the other they are the text. -/
def cutFrom (word : Text) : Text → List Text
  | [] => [word.reverse]
  | [a] => if isSingle a then [word.reverse, [a], []] else [(a :: word).reverse]
  | a :: b :: rest =>
    if isPair a b then word.reverse :: [a, b] :: cutFrom [] rest
    else if isSingle a then word.reverse :: [a] :: cutFrom [] (b :: rest)
    else cutFrom (a :: word) (b :: rest)

/-- The pieces of a line between and including its delimiters. -/
def cut (line : Text) : List Text := cutFrom [] line

/-- The pieces of line `line` from column `col` on, without the blank ones. -/
def place (line : Nat) : (col : Nat) → List Text → List Token
  | _, [] => []
  | col, piece :: rest =>
    let next := col + piece.length
    if Text.isBlank piece then place line next rest
    else ⟨piece, ⟨line, col, line, next⟩⟩ :: place line next rest

/-- The tokens of lines numbered from `number` on. -/
def ofLinesFrom (number : Nat) : List Text → List Token
  | [] => []
  | line :: rest => place number 0 (cut line) ++ ofLinesFrom (number + 1) rest

/-- The tokens of source lines. -/
def ofLines (lines : List Text) : List Token := ofLinesFrom 1 lines

/-- The tokens of a source text. -/
def ofSource (source : Text) : List Token := ofLines (Text.lines source)

end Token

end Goat
