import Goat.Container.Crc32
import Goat.Container.Deflate

/-!
# Gzip files

A file is a sequence of members: a header, a deflate stream, and the checksum and
size of its bytes.
-/

namespace Goat.Gzip

/-- Why a file cannot be read. -/
inductive Error where
  | truncated
  | invalidHeader
  | invalidChecksum
  | corrupt (offset : Nat)
  deriving DecidableEq, Repr

/-- The message of an error. -/
def Error.message : Error → Text
  | truncated => "unexpected EOF"
  | invalidHeader => "gzip: invalid header"
  | invalidChecksum => "gzip: invalid checksum"
  | corrupt offset => Text.join ["flate: corrupt input before offset ", Text.ofNat offset]

/-- The error of a member whose stream has an error. -/
def Error.ofDeflate : Deflate.Error → Error
  | .truncated => truncated
  | .corrupt offset => corrupt offset

/-- The two bytes that a file starts with. -/
def magic : Text := [0x1f, 0x8b]

/-- The number of the deflate method. -/
def deflateMethod : UInt8 := 8

/-- The checksum and size that end a member. -/
def trailer (t : Text) : Text :=
  LittleEndian.encode 4 (Crc32.checksum t).toNat ++ LittleEndian.encode 4 t.length

/-- A file of one member. `effort` tells readers how hard the writer tried. -/
def encode (effort : UInt8) (t : Text) : Text :=
  magic ++ [deflateMethod, 0, 0, 0, 0, 0, effort, 0xff] ++ Deflate.encode t ++ trailer t

/-- Cuts off `count` bytes. -/
def cut (count : Nat) (t : Text) : Except Error (Text × Text) :=
  if t.length < count then .error .truncated else .ok (t.take count, t.drop count)

/-- The greatest size of a text in a header, with its end. -/
def headerTextSize : Nat := 512

/-- Skips a text that a zero byte ends. -/
def skipText (t : Text) : Except Error Text :=
  let size := (t.takeWhile (· ≠ 0)).length
  if headerTextSize ≤ size then .error .invalidHeader
  else if t.length ≤ size then .error .truncated
  else .ok (t.drop (size + 1))

/-- The flag is set. -/
def hasFlag (flags : UInt8) (flag : UInt8) : Bool := flags &&& flag != 0

/-- Skips a part of a header that is there if its flag is set. -/
def skipIf (present : Bool) (skip : Text → Except Error Text) (t : Text) : Except Error Text :=
  if present then skip t else .ok t

/-- Skips a part of a header that gives its size. -/
def skipSized (t : Text) : Except Error Text := do
  let (size, t) ← cut 2 t
  let (_, t) ← cut (LittleEndian.decode size) t
  return t

/-- Skips the checksum of a header that was `header` up to here. -/
def skipHeaderChecksum (header : Text) (t : Text) : Except Error Text := do
  let (sum, t) ← cut 2 t
  if LittleEndian.decode sum = (Crc32.checksum header).toNat % 65536 then return t
  else .error .invalidHeader

/-- Skips the header of a member. -/
def skipHeader (t : Text) : Except Error Text := do
  let (fixed, rest) ← cut 10 t
  if fixed.take 3 ≠ magic ++ [deflateMethod] then .error .invalidHeader
  else
    let flags := fixed.getD 3 0
    let rest ← skipIf (hasFlag flags 4) skipSized rest
    let rest ← skipIf (hasFlag flags 8) skipText rest
    let rest ← skipIf (hasFlag flags 16) skipText rest
    skipIf (hasFlag flags 2) (skipHeaderChecksum (t.take (t.length - rest.length))) rest

/-- The bytes of the first member, and what follows it. -/
def decodeMember (t : Text) : Except Error (Text × Text) := do
  let t ← skipHeader t
  let (bytes, t) ← (Deflate.decode t).mapError Error.ofDeflate
  let (found, t) ← cut 8 t
  if found = trailer bytes then return (bytes, t) else .error .invalidChecksum

/-- The bytes of all members, at most `fuel` of them. -/
def decodeMembers : (fuel : Nat) → Text → Except Error Text
  | 0, _ => .error .truncated
  | fuel + 1, t => do
    let (bytes, rest) ← decodeMember t
    if rest.isEmpty then return bytes
    else
      let more ← decodeMembers fuel rest
      return bytes ++ more

/-- The bytes of a file. Every member takes bytes, so the size is fuel enough. -/
def decode (t : Text) : Except Error Text := decodeMembers (t.length + 1) t

end Goat.Gzip
