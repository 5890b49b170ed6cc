import Goat.Cache.StoreFile
import Goat.Container.LittleEndian

/-!
# Database files

A database file is cut into pages of one size. A table is a tree of pages whose leaves hold the
rows, and the first page is the root of the table that lists the tables. A store is read from the
table of its programs; files in other encodings than UTF-8 are not read.
-/

namespace Goat.Cache

/-- A database file with its figures. -/
structure Database where
  content : Text
  pageSize : Nat
  /-- The bytes of a page that hold data; the rest is reserved. -/
  usable : Nat

namespace Database

/-- What a database file starts with. -/
def magic : Text := Text.ofString "SQLite format 3" ++ [0x00]

/-- The number of bytes before the tree on the first page. -/
def headerSize : Nat := 100

/-- The deepest tree that is read. -/
def maxDepth : Nat := 20

/-- The number that bytes stand for, the highest byte first. -/
def number (bytes : Text) : Nat := LittleEndian.decode bytes.reverse

/-- The number in `width` bytes from a position on. -/
def numberAt (t : Text) (position width : Nat) : Nat := number ((t.drop position).take width)

/-- The database of a file with rows in UTF-8. -/
def ofText? (t : Text) : Option Database :=
  let size := numberAt t 16 2
  let pageSize := if size = 1 then 65536 else size
  if magic.isPrefixOf t && numberAt t 56 4 ≤ 1 then
    some { content := t, pageSize, usable := pageSize - numberAt t 20 1 }
  else none

/-- A page; the first one has the number 1. -/
def page? (db : Database) (n : Nat) : Option Text :=
  let page := (db.content.drop ((n - 1) * db.pageSize)).take db.pageSize
  if n = 0 || page.length < db.pageSize then none else some page

/-- Reads a number in groups of seven bits, the highest first. All its bytes but the last have
    their top bit set, and a ninth byte is taken whole. The `count` bytes read add up to `acc`. -/
def varintFrom? (count acc : Nat) : Text → Option (Nat × Text)
  | [] => none
  | b :: rest =>
    if count = 8 then some (acc * 256 + b.toNat, rest)
    else if b < 0x80 then some (acc * 128 + b.toNat, rest)
    else varintFrom? (count + 1) (acc * 128 + (b.toNat - 128)) rest

/-- Such a number and what follows it. -/
def varint? (t : Text) : Option (Nat × Text) := varintFrom? 0 0 t

theorem length_varintFrom_lt {count acc n : Nat} {t rest : Text}
    (h : varintFrom? count acc t = some (n, rest)) : rest.length < t.length := by
  fun_induction varintFrom? count acc t with
  | case1 => simp at h
  | case2 | case3 =>
    obtain ⟨-, rfl⟩ := by simpa using h
    simp
  | case4 _ _ _ _ _ _ ih => exact Nat.lt_succ_of_lt (ih h)

/-- Such numbers up to the end of a text. -/
def varints? (t : Text) : Option (List Nat) :=
  if t.isEmpty then some []
  else
    match h : varint? t with
    | none => none
    | some (n, rest) =>
      have := length_varintFrom_lt h
      (varints? rest).map (n :: ·)
termination_by t.length

/-- A value in a row. -/
inductive Value where
  | null
  | int (n : Int)
  | real (bits : Text)
  | bytes (t : Text)
  deriving DecidableEq, Repr

/-- The number of bytes of a value of a kind. -/
def Value.size? : Nat → Option Nat
  | 0 | 8 | 9 => some 0
  | 1 => some 1
  | 2 => some 2
  | 3 => some 3
  | 4 => some 4
  | 5 => some 6
  | 6 | 7 => some 8
  | 10 | 11 => none
  | kind => some ((kind - 12) / 2)

/-- The value of a kind that bytes stand for. -/
def Value.ofBytes (kind : Nat) (bytes : Text) : Value :=
  if kind = 0 then .null
  else if kind ≤ 6 then .int (Int.bmod (number bytes) (Nat.pow 256 bytes.length))
  else if kind = 7 then .real bytes
  else if kind ≤ 9 then .int (kind - 8)
  else .bytes bytes

/-- The values of some kinds, one after the other. -/
def values? : List Nat → Text → Option (List Value)
  | [], _ => some []
  | kind :: kinds, t => do
    let size ← Value.size? kind
    if t.length < size then none
    else return Value.ofBytes kind (t.take size) :: (← values? kinds (t.drop size))

/-- The row that a payload holds: the kinds of its values and the values. -/
def row? (payload : Text) : Option (List Value) := do
  let (size, rest) ← varint? payload
  let header := size - (payload.length - rest.length)
  values? (← varints? (rest.take header)) (rest.drop header)

/-- How much of a payload stands in the leaf. -/
def localSize (db : Database) (size : Nat) : Nat :=
  let most := db.usable - 35
  let least := (db.usable - 12) * 32 / 255 - 23
  let fitting := least + (size - least) % (db.usable - 4)
  if size ≤ most then size else if fitting ≤ most then fitting else least

/-- What stands on at most `pages` linked pages, from a page on. -/
def linked? (db : Database) : (pages : Nat) → (n : Nat) → Option Text
  | 0, _ => some []
  | pages + 1, n =>
    if n = 0 then some []
    else do
      let page ← db.page? n
      return (page.take db.usable).drop 4 ++ (← linked? db pages (numberAt page 0 4))

/-- The row in a cell of a leaf: after the size of its payload and its key. -/
def cellRow? (db : Database) (cell : Text) : Option (List Value) := do
  let (size, rest) ← varint? cell
  let (_, rest) ← varint? rest
  let inLeaf := db.localSize size
  if inLeaf = size then row? (rest.take size)
  else
    let more ← db.linked? (size / (db.usable - 4) + 1) (numberAt rest inLeaf 4)
    row? ((rest.take inLeaf ++ more).take size)

/-- The positions of the cells of a page in the order of their keys. -/
def cellPositions (tree : Text) (size : Nat) : List Nat :=
  (List.range (numberAt tree 3 2)).map fun i => numberAt tree (size + 2 * i) 2

/-- The rows of the tree below a page, in the order of their keys. -/
def rows? (db : Database) : (depth : Nat) → (n : Nat) → Option (List (List Value))
  | 0, _ => none
  | depth + 1, n => do
    let page ← db.page? n
    let tree := if n = 1 then page.drop headerSize else page
    match tree.headD 0 with
    | 0x0d => (cellPositions tree 8).mapM fun position => db.cellRow? (page.drop position)
    | 0x05 =>
      let below := (cellPositions tree 12).map fun position => numberAt page position 4
      let parts ← (below ++ [numberAt tree 8 4]).mapM (rows? db depth)
      return parts.flatten
    | _ => none

/-- The first page of the table with a name, if the row tells of it. -/
def rootOf? (name : Text) : List Value → Option Nat
  | [.bytes kind, .bytes own, _, .int root, _] =>
    if kind = ("table" : Text) && own = name then some root.toNat else none
  | _ => none

/-- The rows of the table with a name, none if there is no such table. -/
def table? (db : Database) (name : Text) : Option (List (List Value)) := do
  match (← db.rows? maxDepth 1).findSome? (rootOf? name) with
  | some root => db.rows? maxDepth root
  | none => return []

/-- The record of a row. -/
def record? : List Value → Option Record
  | [.bytes hash, .int sourceSize, .int storedSize, .int instructions, .bytes blob, .int created] =>
    some { hash, sourceSize, storedSize, instructions, blob, created }
  | _ => none

end Database

/-- The store of a file that holds a database or the lines of a store. -/
def Store.ofFile? (t : Text) : Option Store :=
  match Database.ofText? t with
  | some db => do return ⟨← (← db.table? "programs").mapM Database.record?⟩
  | none => Store.ofText? t

end Goat.Cache
