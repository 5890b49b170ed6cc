import Goat.Container.LittleEndian
import Goat.Text.Chunk

/-!
# Zstandard files

A file is a sequence of frames, and a frame a header with a sequence of blocks.
Writing stores the bytes as they are. Reading takes frames of stored and of
repeated bytes, without dictionaries and checksums.
-/

namespace Goat.Zstd

/-- Why a file cannot be read. -/
inductive Error where
  | truncated
  | invalidHeader
  /-- The file uses a part of the format that is not supported. -/
  | unsupported
  deriving DecidableEq, Repr

/-- The message of an error. -/
def Error.message : Error → Text
  | truncated => "unexpected EOF"
  | invalidHeader => "invalid input: magic number mismatch"
  | unsupported => "unsupported frame"

/-- The four bytes that a frame starts with. -/
def magic : Text := [0x28, 0xb5, 0x2f, 0xfd]

/-- The descriptor of a frame in one segment that gives its size in eight bytes. -/
def descriptor : UInt8 := 0xe0

/-- The greatest number of bytes of a block, less one. -/
def blockSize : Nat := 131071

/-- A block that stores its bytes. -/
def storedBlock (isLast : Bool) (t : Text) : Text :=
  LittleEndian.encode 3 (t.length * 8 + if isLast then 1 else 0) ++ t

/-- Blocks that store their bytes, the last of them marked. -/
def storedBlocks : List Text → Text
  | [] => []
  | [t] => storedBlock true t
  | t :: rest => storedBlock false t ++ storedBlocks rest

/-- A file of one frame. -/
def encode (t : Text) : Text :=
  magic ++ descriptor :: LittleEndian.encode 8 t.length ++ storedBlocks (Text.chunks blockSize t)

/-- Cuts off `count` bytes. -/
def cut (count : Nat) (t : Text) : Except Error (Text × Text) :=
  if t.length < count then .error .truncated else .ok (t.take count, t.drop count)

/-- Reads the content of a block of the given kind and size: stored bytes, or one byte
    that is repeated. -/
def readContent (kind size : Nat) (t : Text) : Except Error (Text × Text) :=
  match kind with
  | 0 => cut size t
  | 1 => (cut 1 t).map fun (bytes, rest) => (List.replicate size (bytes.headD 0), rest)
  | _ => .error .unsupported

/-- Reads blocks up to the last one, at most `fuel` of them. -/
def readBlocks : (fuel : Nat) → Array UInt8 → Text → Except Error (Array UInt8 × Text)
  | 0, _, _ => .error .truncated
  | fuel + 1, out, t => do
    let (bytes, t) ← cut 3 t
    let header := LittleEndian.decode bytes
    let (content, t) ← readContent (header / 2 % 4) (header / 8) t
    let out := out ++ content.toArray
    if header % 2 = 1 then return (out, t) else readBlocks fuel out t

/-- The number of bytes that the header has for the size of the content. -/
def sizeWidth (flags : Nat) : Nat :=
  match flags / 64 with
  | 0 => if flags / 32 % 2 = 1 then 1 else 0
  | 1 => 2
  | 2 => 4
  | _ => 8

/-- Skips the header of a frame. -/
def skipHeader (t : Text) : Except Error Text := do
  let (found, t) ← cut 4 t
  if found ≠ magic then .error .invalidHeader
  else
    let (flags, t) ← cut 1 t
    let flags := LittleEndian.decode flags
    let (_, t) ← cut ((if flags / 32 % 2 = 1 then 0 else 1) + sizeWidth flags) t
    if flags % 16 = 0 then return t else .error .unsupported

/-- The bytes of all frames, at most `fuel` of them. -/
def decodeFrames : (fuel : Nat) → Text → Except Error Text
  | 0, _ => .error .truncated
  | fuel + 1, t => do
    let t ← skipHeader t
    let (out, rest) ← readBlocks (t.length + 1) #[] t
    if rest.isEmpty then return out.toList
    else
      let more ← decodeFrames fuel rest
      return out.toList ++ more

/-- The bytes of a file. Every frame takes bytes, so the size is fuel enough. -/
def decode (t : Text) : Except Error Text := decodeFrames (t.length + 1) t

end Goat.Zstd
