import Goat.Cache.Store

/-!
# Store files

A store in a file: a line for every record, with its fields divided by blanks.
-/

namespace Goat.Cache

/-- What a store file starts with. -/
def storeHeader : Text := "goat cache 1"

/-- The record as a line. -/
def Record.toLine (r : Record) : Text :=
  Text.intercalate (Text.blanks 1)
    [ Text.hexBytes r.hash, Text.ofInt r.sourceSize, Text.ofInt r.storedSize,
      Text.ofInt r.instructions, Text.hexBytes r.blob, Text.ofInt r.created ]

/-- The record of a line. -/
def Record.ofLine? (line : Text) : Option Record :=
  match Text.splitOn 0x20 line with
  | [hash, sourceSize, storedSize, instructions, blob, created] => do
    return {
      hash := ← Text.ofHex? hash
      sourceSize := ← Text.toInt? sourceSize
      storedSize := ← Text.toInt? storedSize
      instructions := ← Text.toInt? instructions
      blob := ← Text.ofHex? blob
      created := ← Text.toInt? created }
  | _ => none

/-- The content of a file with the store. -/
def Store.toText (s : Store) : Text :=
  Text.intercalate Text.newline (storeHeader :: s.records.map Record.toLine)

/-- The store of a file; an empty file is an empty store. -/
def Store.ofText? (t : Text) : Option Store :=
  if t.isEmpty then some {}
  else
    match Text.lines t with
    | header :: lines =>
      if header = storeHeader then (lines.mapM Record.ofLine?).map Store.mk else none
    | [] => none

end Goat.Cache
