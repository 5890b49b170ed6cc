import Goat.Container.Gzip
import Goat.Container.Zstd
import Goat.Path
import Goat.Text.Lower
import Goat.Text.Quoted

/-!
# Written programs

A compiled program is written as plain text, wrapped into lines, or compressed.
Reading tells the formats apart by their first bytes.
-/

namespace Goat.Container

/-- How a program is written. -/
inductive Format where
  | plain
  | gzip
  | zstd
  deriving DecidableEq, Repr

namespace Format

/-- The name of a format. -/
def name : Format → Text
  | plain => "none"
  | gzip => "gzip"
  | zstd => "zstd"

/-- The format with exactly this name; no name is the plain format. -/
def ofName? (name : Text) : Option Format :=
  if name.isEmpty then some plain
  else [plain, gzip, zstd].find? fun f => f.name == name

/-- The format that a user asks for, in upper or lower case. -/
def ofRequest? (request : Text) : Option Format :=
  let name := Text.lower request
  if name ∈ (["", "none", "plain"] : List Text) then some plain
  else if name ∈ (["gzip", "gz"] : List Text) then some gzip
  else if name ∈ (["zstd", "zst"] : List Text) then some zstd
  else none

/-- The message for a format that does not exist. -/
def unknownMessage (name : Text) : Text := Text.join ["unknown compression ", Text.quote name]

/-- The message for a request that is no format. -/
def unknownRequestMessage (request : Text) : Text :=
  Text.join [unknownMessage request, " (use none, gzip or zstd)"]

/-- What the format adds to the name of a file. -/
def extension : Format → Text
  | plain => ""
  | gzip => ".gz"
  | zstd => ".zst"

end Format

/-- How hard to compress. -/
inductive Level where
  | fastest
  | standard
  | best
  deriving DecidableEq, Repr

namespace Level

/-- The level of a name; any other name is the standard level. -/
def ofName (name : Text) : Level :=
  if name = ("fastest" : Text) then fastest else if name = ("best" : Text) then best else standard

/-- The mark of the level in a gzip header. -/
def gzipMark : Level → UInt8
  | fastest => 4
  | standard => 0
  | best => 2

end Level

/-- How to write a program. -/
structure Options where
  format : Format := .plain
  level : Level := .standard
  /-- The number of instructions in a line of plain text; none for zero and below. -/
  lineWidth : Int := 0
  deriving DecidableEq, Repr

/-- The file that the program of a source file is written to. -/
def outputPath (source : Text) (format : Format) : Text :=
  Text.join [Path.withoutExtension source, ".bf", format.extension]

/-- A text with a line break at its end. -/
def endLine (t : Text) : Text := if Text.endsWith t Text.newline then t else t ++ Text.newline

/-- How bytes are packed and unpacked in the compressed formats. -/
structure Codecs where
  gzip : Level → Text → Text
  gunzip : Text → Except Gzip.Error Text
  zstd : Level → Text → Text
  unzstd : Text → Except Zstd.Error Text

/-- The codecs of this library: they store the bytes as they are, at every level. -/
def Codecs.stored : Codecs where
  gzip level := Gzip.encode level.gzipMark
  gunzip := Gzip.decode
  zstd _ := Zstd.encode
  unzstd := Zstd.decode

/-- The bytes of a program written with some codecs. -/
def encodeWith (codecs : Codecs) (options : Options) (code : Text) : Text :=
  match options.format with
  | .plain => endLine (Text.wrapAt options.lineWidth code)
  | .gzip => codecs.gzip options.level code
  | .zstd => codecs.zstd options.level code

/-- The bytes of a written program. -/
def encode (options : Options) (code : Text) : Text := encodeWith .stored options code

/-- Why a written program cannot be read. -/
inductive Error where
  | gzip (cause : Gzip.Error)
  | zstd (cause : Zstd.Error)
  deriving DecidableEq, Repr

/-- The format that an error is about. -/
def Error.format : Error → Format
  | gzip _ => .gzip
  | zstd _ => .zstd

/-- The message of an error. -/
def Error.message : Error → Text
  | gzip cause => Text.join ["gzip: ", cause.message]
  | zstd cause => Text.join ["zstd: ", cause.message]

/-- The text without its line breaks. -/
def joinLines (t : Text) : Text := t.filter fun b => b != 0x0a && b != 0x0d

/-- The text in a file of any format. -/
def unpackWith (codecs : Codecs) (data : Text) : Except Error Text :=
  if Text.startsWith data Gzip.magic then (codecs.gunzip data).mapError .gzip
  else if Text.startsWith data Zstd.magic then (codecs.unzstd data).mapError .zstd
  else .ok data

/-- The program in a file of any format, read with some codecs. -/
def decodeWith (codecs : Codecs) (data : Text) : Except Error Text :=
  (unpackWith codecs data).map joinLines

/-- The program in a file of any format. -/
def decode (data : Text) : Except Error Text := decodeWith .stored data

end Goat.Container
