import Goat.Text.Utf8

/-!
# Configuration documents

The part of YAML that configuration files use: block mappings and lists nested by
indentation, flow lists and mappings, plain and quoted scalars, and comments.
Anything else is no document.
-/

namespace Goat.Yaml

/-- A node of a document. -/
inductive Node where
  /-- A scalar; a quoted one is always a text. -/
  | scalar (value : Text) (isQuoted : Bool)
  | list (items : List Node)
  | mapping (members : List (Text × Node))
  deriving Repr

/-- The scalar that stands where nothing is written. -/
def Node.empty : Node := .scalar [] false

/-- A line that is not blank, without its indentation. -/
structure Line where
  indent : Nat
  text : Text
  deriving DecidableEq, Repr

/-- The byte is a blank or a tab. -/
def isSpace (b : UInt8) : Bool := b == 0x20 || b == 0x09

/-- The text without blanks and tabs at its start. -/
def skipSpace (t : Text) : Text := t.dropWhile isSpace

/-- The text without blanks and tabs at its end. -/
def dropSpaceAtEnd (t : Text) : Text := (t.reverse.dropWhile isSpace).reverse

/-- The character can stand in a document. -/
def isAllowed (c : Char) : Bool :=
  let n := c.toNat
  n == 0x09 || n == 0x0a || n == 0x0d || (0x20 ≤ n && n ≤ 0x7e) || n == 0x85
    || (0xa0 ≤ n && n ≤ 0xd7ff) || (0xe000 ≤ n && n ≤ 0xfffd && n != 0xfeff) || 0x10000 ≤ n

/-- The text is a comment or nothing. -/
def isCommentOrNothing (t : Text) : Bool :=
  match skipSpace t with
  | [] => true
  | b :: _ => b == 0x23

/-- The line of a text; `none` for a blank line or a comment. -/
def Line.ofText? (t : Text) : Option Line :=
  let t := dropSpaceAtEnd (if t.getLast? = some 0x0d then t.dropLast else t)
  if isCommentOrNothing t then none
  else
    let text := t.dropWhile (· == 0x20)
    some ⟨t.length - text.length, text⟩

/-- The line marks the start or the end of a document. -/
def Line.isMarker (l : Line) : Bool :=
  l.indent == 0 && (l.text == ("---" : Text) || l.text == ("..." : Text))

/-! ## Scalars in quotes -/

/-- The character of an escape of one letter. -/
def escape? (b : UInt8) : Option Char :=
  let table : List (Char × Nat) :=
    [ ('0', 0x00), ('a', 0x07), ('b', 0x08), ('t', 0x09), ('n', 0x0a), ('v', 0x0b), ('f', 0x0c),
      ('r', 0x0d), ('e', 0x1b), (' ', 0x20), ('"', 0x22), ('/', 0x2f), ('\\', 0x5c),
      ('N', 0x85), ('_', 0xa0), ('L', 0x2028), ('P', 0x2029) ]
  (table.find? fun entry => entry.1.toNat == b.toNat).map fun entry => Char.ofNat entry.2

/-- The number of hexadecimal digits of an escape by code point. -/
def escapeWidth? (b : UInt8) : Option Nat :=
  if b = 0x78 then some 2 else if b = 0x75 then some 4 else if b = 0x55 then some 8 else none

/-- The value of a row of hexadecimal digits. -/
def hexNumber? (acc : Nat) : Text → Option Nat
  | [] => some acc
  | b :: rest => (Text.hexValue? b).bind fun d => hexNumber? (acc * 16 + d) rest

/-- The character of a code point given by exactly `width` hexadecimal digits. -/
def codePoint? (width : Nat) (digits : Text) : Option Char :=
  if digits.length < width then none
  else
    (hexNumber? 0 digits).bind fun n =>
      if h : n.isValidChar then some (Char.ofNatAux n h) else none

/-- A line break inside quotes: blanks around it are dropped, one break is a blank
    and further ones stay. Yields the text for it and what follows. -/
def foldBreaks (t : Text) : Text × Text :=
  let space := t.takeWhile fun b => isSpace b || b == 0x0a || b == 0x0d
  let breaks := space.count 0x0a
  (if breaks ≤ 1 then Text.blanks 1 else List.replicate (breaks - 1) 0x0a, t.drop space.length)

/-- Reads the rest of a scalar in double quotes; `value` is what was read, in
    reverse. -/
def readDouble : (fuel : Nat) → (value : Text) → Text → Option (Text × Text)
  | 0, _, _ => none
  | _ + 1, _, [] => none
  | fuel + 1, value, b :: rest =>
    if b = 0x22 then some (value.reverse, rest)
    else if b = 0x5c then
      match rest with
      | [] => none
      | e :: rest =>
        match escape? e, escapeWidth? e with
        | some c, _ => readDouble fuel ((Text.ofChar c).reverse ++ value) rest
        | none, some width =>
          match codePoint? width (rest.take width) with
          | none => none
          | some c => readDouble fuel ((Text.ofChar c).reverse ++ value) (rest.drop width)
        | none, none =>
          if e = 0x0a then readDouble fuel value (skipSpace rest) else none
    else if b = 0x0a then
      let (folded, rest) := foldBreaks (b :: rest)
      readDouble fuel (folded.reverse ++ value.dropWhile isSpace) rest
    else readDouble fuel (b :: value) rest

/-- Reads the rest of a scalar in single quotes; `value` is what was read, in
    reverse. -/
def readSingle : (fuel : Nat) → (value : Text) → Text → Option (Text × Text)
  | 0, _, _ => none
  | _ + 1, _, [] => none
  | fuel + 1, value, b :: rest =>
    if b = 0x27 then
      match rest with
      | 0x27 :: rest => readSingle fuel (0x27 :: value) rest
      | rest => some (value.reverse, rest)
    else if b = 0x0a then
      let (folded, rest) := foldBreaks (b :: rest)
      readSingle fuel (folded.reverse ++ value.dropWhile isSpace) rest
    else readSingle fuel (b :: value) rest

/-- Reads a scalar in quotes. -/
def readQuoted? : Text → Option (Text × Text)
  | 0x22 :: rest => readDouble (rest.length + 1) [] rest
  | 0x27 :: rest => readSingle (rest.length + 1) [] rest
  | _ => none

/-- The text starts with a quote. -/
def startsQuoted : Text → Bool
  | b :: _ => b == 0x22 || b == 0x27
  | [] => false

/-! ## Plain scalars -/

/-- The byte ends a plain scalar before it, at a blank, a tab or the end. -/
def isSpaceOrEnd : Option UInt8 → Bool
  | none => true
  | some b => isSpace b || b == 0x0a

/-- The marks that divide the parts of flow nodes. -/
def flowMarks : Text := ",[]\x7b\x7d"

/-- The marks that no plain scalar starts with. -/
def indicators : Text := flowMarks ++ Text.ofString "#&*!|>'\"%@`"

/-- A plain scalar can start with this text. -/
def startsPlain : Text → Bool
  | [] => false
  | b :: rest =>
    if b == 0x2d || b == 0x3f || b == 0x3a then !isSpaceOrEnd rest.head?
    else decide (b ∉ indicators)

/-- The length of a plain scalar up to a comment or a colon that ends it; `isFlow`
    for one that brackets and commas end as well. -/
def plainLength (isFlow : Bool) (afterSpace : Bool) : Text → Nat
  | [] => 0
  | b :: rest =>
    if b == 0x23 && afterSpace then 0
    else if b == 0x3a && (isSpaceOrEnd rest.head?
        || (isFlow && rest.head?.any fun c => decide (c ∈ flowMarks))) then 0
    else if isFlow && decide (b ∈ flowMarks) then 0
    else plainLength isFlow (isSpace b || b == 0x0a) rest + 1

/-! ## Flow nodes -/

/-- Skips blanks, line breaks and comments between the parts of a flow node. -/
def skipFlowSpace : (fuel : Nat) → Text → Text
  | 0, t => t
  | fuel + 1, t =>
    match t with
    | [] => []
    | b :: rest =>
      if isSpace b || b == 0x0a then skipFlowSpace fuel rest
      else if b == 0x23 then skipFlowSpace fuel (rest.dropWhile (· != 0x0a))
      else t

/-- Skips all space that a text starts with. -/
def skipFlow (t : Text) : Text := skipFlowSpace (t.length + 1) t

/-- The lines of a plain scalar as one. -/
def foldPlain (t : Text) : Text :=
  let words := (Text.lines t).map fun line => skipSpace (dropSpaceAtEnd line)
  Text.intercalate (Text.blanks 1) (words.filter (!·.isEmpty))

mutual

/-- Reads a node in flow style. -/
def readFlow : (fuel : Nat) → Text → Option (Node × Text)
  | 0, _ => none
  | fuel + 1, t =>
    match t with
    | 0x5b :: rest => (readItems fuel [] (skipFlow rest)).map fun (items, t) => (.list items, t)
    | 0x7b :: rest =>
      (readMembers fuel [] (skipFlow rest)).map fun (members, t) => (.mapping members, t)
    | t =>
      if startsQuoted t then (readQuoted? t).map fun (value, rest) => (.scalar value true, rest)
      else if startsPlain t then
        let length := plainLength true false t
        some (.scalar (foldPlain (t.take length)) false, t.drop length)
      else none

/-- Reads the items of a flow list; `items` are those read, latest first. An item
    can be a mapping of one member without braces. -/
def readItems : (fuel : Nat) → (items : List Node) → Text → Option (List Node × Text)
  | 0, _, _ => none
  | fuel + 1, items, t =>
    match t with
    | 0x5d :: rest => some (items.reverse, rest)
    | t => do
      let (item, t) ← readFlow fuel t
      let (item, t) ← match skipFlow t with
        | 0x3a :: rest => (readFlow fuel (skipFlow rest)).map fun (_, t) => (.mapping [], t)
        | t => some (item, t)
      match skipFlow t with
      | 0x2c :: rest => readItems fuel (item :: items) (skipFlow rest)
      | 0x5d :: rest => some ((item :: items).reverse, rest)
      | _ => none

/-- Reads the members of a flow mapping; `members` are those read, latest first. -/
def readMembers : (fuel : Nat) → (members : List (Text × Node)) → Text →
    Option (List (Text × Node) × Text)
  | 0, _, _ => none
  | fuel + 1, members, t =>
    match t with
    | 0x7d :: rest => some (members.reverse, rest)
    | t => do
      let (key, t) ← readFlow fuel t
      let name ← match key with
        | .scalar value _ => some value
        | _ => none
      let (value, t) ← match skipFlow t with
        | 0x3a :: rest =>
          match skipFlow rest with
          | 0x2c :: more => some (Node.empty, 0x2c :: more)
          | 0x7d :: more => some (Node.empty, 0x7d :: more)
          | rest => readFlow fuel rest
        | t => some (Node.empty, t)
      match skipFlow t with
      | 0x2c :: rest => readMembers fuel ((name, value) :: members) (skipFlow rest)
      | 0x7d :: rest => some (((name, value) :: members).reverse, rest)
      | _ => none

end

/-- Only space and a comment follow a node; a comment stands apart from it. -/
def isDone (t : Text) : Bool :=
  match t with
  | [] => true
  | b :: _ => (isSpace b || b == 0x0a) && (skipFlow t).isEmpty

/-- The node that a value and its further lines stand for. A plain scalar goes over
    several lines only if none of them has a comment or a colon that ends it. -/
def inline? (lines : List Text) : Option Node :=
  let t := Text.intercalate Text.newline lines
  let isFlow := t.head? == some 0x5b || t.head? == some 0x7b
  if isFlow || startsQuoted t then
    match readFlow (2 * t.length + 2) t with
    | none => none
    | some (node, rest) => if isDone rest then some node else none
  else if startsPlain t then
    let length := plainLength false false t
    if t.length = length || (skipFlow (t.drop length)).isEmpty then
      some (.scalar (foldPlain (t.take length)) false)
    else none
  else none

/-! ## Block nodes -/

/-- The name of a member and what follows its colon, if the line is a member. -/
def splitMember? (t : Text) : Option (Text × Text) :=
  let found :=
    if startsQuoted t then (readQuoted? t).map fun (name, rest) => (name, skipSpace rest)
    else if startsPlain t then
      let length := plainLength false false t
      some (dropSpaceAtEnd (t.take length), t.drop length)
    else none
  match found with
  | some (name, 0x3a :: rest) =>
    if isSpaceOrEnd rest.head? then some (name, skipSpace rest) else none
  | _ => none

/-- What follows the mark of a list item, if the line is one, and the column it
    starts in. -/
def splitItem? (l : Line) : Option (Nat × Text) :=
  match l.text with
  | 0x2d :: rest =>
    if isSpaceOrEnd rest.head? then
      let text := skipSpace rest
      some (l.indent + (l.text.length - text.length), text)
    else none
  | _ => none

/-- The value has nothing on its own line. -/
def isBare (value : Text) : Bool := isCommentOrNothing value

mutual

/-- The node of a block of lines that starts at the column of its first line. -/
def block? : (fuel : Nat) → List Line → Option Node
  | 0, _ => none
  | fuel + 1, lines =>
    match lines with
    | [] => some Node.empty
    | first :: rest =>
      if (splitItem? first).isSome then (items? fuel first.indent lines).map .list
      else if (splitMember? first.text).isSome then
        (members? fuel first.indent lines).map .mapping
      else inline? ((first :: rest).map Line.text)

/-- The items of a list in column `indent`. -/
def items? : (fuel : Nat) → (indent : Nat) → List Line → Option (List Node)
  | 0, _, _ => none
  | fuel + 1, indent, lines =>
    match lines with
    | [] => some []
    | first :: rest =>
      let inner := rest.takeWhile fun l => indent < l.indent
      if first.indent ≠ indent then none
      else
        match splitItem? first with
        | none => none
        | some (column, text) => do
          let item ←
            if isBare text then block? fuel inner else block? fuel (⟨column, text⟩ :: inner)
          let more ← items? fuel indent (rest.drop inner.length)
          return item :: more

/-- The members of a mapping in column `indent`. A list can be the value of a member
    without standing further right. -/
def members? : (fuel : Nat) → (indent : Nat) → List Line → Option (List (Text × Node))
  | 0, _, _ => none
  | fuel + 1, indent, lines =>
    match lines with
    | [] => some []
    | first :: rest =>
      if first.indent ≠ indent then none
      else
        match splitMember? first.text with
        | none => none
        | some (name, value) => do
          let deeper := rest.takeWhile fun l => indent < l.indent
          let inner :=
            if isBare value && deeper.isEmpty then
              rest.takeWhile fun l =>
                indent < l.indent || (l.indent == indent && (splitItem? l).isSome)
            else deeper
          let node ←
            if isBare value then block? fuel inner else inline? (value :: inner.map Line.text)
          let more ← members? fuel indent (rest.drop inner.length)
          return (name, node) :: more

end

/-- The lines of the first document. -/
def documentLines (t : Text) : List Line :=
  let lines := (Text.lines t).filterMap Line.ofText?
  let lines := match lines with
    | first :: rest => if first.text == ("---" : Text) then rest else lines
    | [] => []
  lines.takeWhile fun l => !l.isMarker

/-- The first document of a text; an empty text is an empty scalar. -/
def document? (t : Text) : Option Node :=
  if (Text.glyphs t).all fun g => g.char.any isAllowed then
    let lines := documentLines t
    if lines.any fun l => l.text.head? == some 0x09 then none
    else block? (3 * (lines.length + 1)) lines
  else none

end Goat.Yaml
