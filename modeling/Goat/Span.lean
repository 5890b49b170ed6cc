import Goat.Text.Basic

/-!
# Spans

Where a token or a part of a program stands in its source. Lines count from 1
and columns from 0; the end column is exclusive.
-/

namespace Goat

/-- A stretch of source text. -/
structure Span where
  startLine : Int := 0
  startCol : Int := 0
  endLine : Int := 0
  endCol : Int := 0
  deriving DecidableEq, Repr

namespace Span

/-- The span that stands for no position. -/
def none : Span := {}

/-- The span carries no position. -/
def isNone (s : Span) : Bool := s.startLine == 0

/-- `a` starts before `b`. -/
def startsBefore (a b : Span) : Bool :=
  a.startLine < b.startLine || (a.startLine == b.startLine && a.startCol < b.startCol)

/-- `a` ends after `b`. -/
def endsAfter (a b : Span) : Bool :=
  b.endLine < a.endLine || (a.endLine == b.endLine && b.endCol < a.endCol)

/-- The smallest span that covers both; a span without position adds nothing. -/
def merge (a b : Span) : Span :=
  if a.isNone then b
  else if b.isNone then a
  else
    let first := if b.startsBefore a then b else a
    let last := if b.endsAfter a then b else a
    ⟨first.startLine, first.startCol, last.endLine, last.endCol⟩

/-- The span as diagnostics show it: line, start column and end column. -/
def toText (s : Span) : Text :=
  Text.join ["L", Text.ofInt s.startLine, ":", Text.ofInt s.startCol, "-", Text.ofInt s.endCol]

end Span

end Goat
