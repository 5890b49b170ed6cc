import Goat.Text.Utf8

/-!
# Text in JSON

String literals of JSON that may also stand inside HTML: besides quotes,
backslashes and control characters, the characters `<`, `>` and `&` and the two
Unicode line separators are escaped.
-/

namespace Goat.Text

/-- The character is escaped by its code point although JSON would not ask for it. -/
def isEscapedInHtml (n : Nat) : Bool :=
  n == 0x3c || n == 0x3e || n == 0x26 || n == 0x2028 || n == 0x2029

/-- How one character, or stray byte, stands in a JSON string. -/
def Glyph.jsonEscaped (g : Glyph) : Text :=
  let n := (g.char.getD replacement).toNat
  if n = 0x22 then "\\\""
  else if n = 0x5c then "\\\\"
  else if n = 0x08 then "\\b"
  else if n = 0x0c then "\\f"
  else if n = 0x0a then "\\n"
  else if n = 0x0d then "\\r"
  else if n = 0x09 then "\\t"
  else if g.char.isNone || n < 0x20 || isEscapedInHtml n then "\\u" ++ hex 4 n
  else g.bytes

/-- The text as a JSON string. -/
def json (t : Text) : Text := 0x22 :: (glyphs t).flatMap Glyph.jsonEscaped ++ [0x22]

/-- A list of JSON values. -/
def jsonList (values : List Text) : Text :=
  join ["[", intercalate "," values, "]"]

/-- The members of a JSON object, as pairs of a name and a written value. -/
def jsonObject (members : List (Text × Text)) : Text :=
  join ["\x7b", intercalate "," (members.map fun (name, value) => json name ++ ":" ++ value),
    "\x7d"]

/-- Written values on lines of their own between two brackets, indented by two
    blanks for each level of `depth`. -/
def jsonBlock (opening closing : Text) (depth : Nat) (values : List Text) : Text :=
  join [opening, newline, intercalate ",\n" (values.map (blanks (2 * depth + 2) ++ ·)), newline,
    blanks (2 * depth), closing]

/-- A list with its values on lines of their own. -/
def jsonListBlock (depth : Nat) (values : List Text) : Text := jsonBlock "[" "]" depth values

/-- An object with its members on lines of their own. -/
def jsonObjectBlock (depth : Nat) (members : List (Text × Text)) : Text :=
  jsonBlock "\x7b" "\x7d" depth
    (members.map fun (name, value) => join [json name, ": ", value])

end Goat.Text
