import Goat.Text.Quoted

/-!
# Database drivers

The kinds of databases that a cache can be kept in, and how they want the
placeholders of a query written.
-/

namespace Goat.Cache

/-- A kind of database. -/
inductive Driver where
  | sqlite
  | postgres
  | mysql
  deriving DecidableEq, Repr

namespace Driver

/-- Every driver. -/
def all : List Driver := [sqlite, postgres, mysql]

/-- The name of a driver. -/
def name : Driver → Text
  | sqlite => "sqlite"
  | postgres => "postgres"
  | mysql => "mysql"

/-- The driver of a name. -/
def ofName? (name : Text) : Option Driver := all.find? fun d => d.name == name

/-- The message for a driver that does not exist. -/
def unknownMessage (name : Text) : Text :=
  Text.join ["unknown cache driver ", Text.quote name, " (use sqlite, postgres or mysql)"]

/-- Numbers the placeholders of a query; `count` were numbered before. -/
def numberFrom (count : Nat) : List Text.Glyph → Text
  | [] => []
  | g :: rest =>
    if g.char = some '?' then
      Text.join ["$", Text.ofNat (count + 1), numberFrom (count + 1) rest]
    else Text.ofChar (g.char.getD Text.replacement) ++ numberFrom count rest

/-- The query as the driver of a name wants it: with question marks, or with numbered
    placeholders. -/
def bindQuery (name query : Text) : Text :=
  if name = postgres.name then numberFrom 0 (Text.glyphs query) else query

end Driver

end Goat.Cache
