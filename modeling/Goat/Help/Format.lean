import Goat.Help.Topic
import Goat.Text.Html
import Goat.Text.Json
import Goat.Text.Wrap

/-!
# Formats of help

A help topic as text for a terminal, as JSON, as Markdown and as HTML.
-/

namespace Goat.Help.Topic

/-- The width of a terminal that does not tell. -/
def defaultWidth : Int := 80

/-- The description of a list entry, below its heading. -/
def entryDescription (width : Int) (description : Text) : Text :=
  Text.ofLines (Text.wrap (Text.blanks 6) width description)

/-- A single builtin, data type or operator as text. -/
def itemText (width : Int) (topic : Topic) : Text :=
  Text.join
    [ topic.usage, "\n\n", Text.ofLines (Text.wrap [] width topic.description),
      if topic.category.isEmpty then [] else Text.join ["\nCategory: ", topic.category, "\n"],
      if topic.example_.isEmpty then []
      else
        Text.join
          ["\nExample:\n", Text.ofLines ((Text.lines topic.example_).map (Text.blanks 2 ++ ·))] ]

/-- The entries of the list of builtins as text; `category` is the heading they stand under. -/
def builtinEntries (width : Int) (category : Text) : List BuiltinEntry → Text
  | [] => []
  | entry :: rest =>
    Text.join
      [ if entry.category = category then [] else Text.join ["\n", entry.category, ":\n"],
        "  ", entry.signature, "\n", entryDescription width entry.description,
        builtinEntries width entry.category rest ]

/-- An entry of the list of data types as text. -/
def typeEntry (width : Int) (entry : TypeEntry) : Text :=
  Text.join ["  ", entry.declaration, "\n", entryDescription width entry.description]

/-- An entry of the list of operators as text, in columns. -/
def operatorEntry (entry : OperatorEntry) : Text :=
  Text.join
    [ "  ", Text.padRight 3 entry.symbol, " ", Text.padRight 11 entry.category, " ",
      entry.description, "\n" ]

/-- The topic as text whose descriptions are wrapped to `width`. -/
def toText (topic : Topic) (width : Int) : Text :=
  let width := if width ≤ 0 then defaultWidth else width
  match topic.kind with
  | .builtin | .type | .operator => itemText width topic
  | .builtinList =>
    Text.join ["Builtin Functions\n=================\n", builtinEntries width [] topic.builtins]
  | .typeList => Text.join ("Data Types\n==========\n\n" :: topic.types.map (typeEntry width))
  | .operatorList =>
    Text.join
      [ "Operators\n=========\n\n", topic.operators.flatMap operatorEntry,
        "\nExpressions take exactly two operands and must be parenthesised: ((a + b) * c)\n" ]
  | .other name => Text.join ["Unknown result kind: ", name, "\n"]

/-- A member of a JSON object with a text as its value. -/
def jsonMember (name value : Text) : Text × Text := (name, Text.json value)

/-- A member that is left out if its text is empty. -/
def jsonOptional (name value : Text) : List (Text × Text) :=
  if value.isEmpty then [] else [jsonMember name value]

/-- A member that holds a list of objects and is left out if the list is empty. -/
def jsonEntries {α : Type} (name : Text) (members : α → List (Text × Text)) (entries : List α) :
    List (Text × Text) :=
  if entries.isEmpty then []
  else [(name, Text.jsonListBlock 1 (entries.map fun e => Text.jsonObjectBlock 2 (members e)))]

/-- The topic as a JSON object. -/
def toJson (topic : Topic) : Text :=
  Text.jsonObjectBlock 0
    ([jsonMember "kind" topic.kind.name, jsonMember "name" topic.name]
      ++ jsonOptional "description" topic.description
      ++ jsonOptional "syntax" topic.usage
      ++ jsonOptional "example" topic.example_
      ++ jsonOptional "category" topic.category
      ++ jsonEntries "builtins"
        (fun e : BuiltinEntry =>
          [ jsonMember "name" e.name, jsonMember "signature" e.signature,
            jsonMember "category" e.category, jsonMember "description" e.description ])
        topic.builtins
      ++ jsonEntries "operators"
        (fun e : OperatorEntry =>
          [ jsonMember "symbol" e.symbol, jsonMember "category" e.category,
            jsonMember "description" e.description ])
        topic.operators
      ++ jsonEntries "types"
        (fun e : TypeEntry =>
          [ jsonMember "name" e.name, jsonMember "syntax" e.declaration,
            jsonMember "description" e.description ])
        topic.types)

/-- A table of a topic of lists: its title, the headings of its columns, and rows whose
    first cell is code. -/
structure Table where
  title : Text
  headings : List Text
  rows : List (Text × List Text)

/-- The table of a topic of lists. -/
def table? (topic : Topic) : Option Table :=
  match topic.kind with
  | .builtinList => some
    { title := "Builtins"
      headings := ["Signature", "Category", "Description"]
      rows := topic.builtins.map fun e => (e.signature, [e.category, e.description]) }
  | .typeList => some
    { title := "Types"
      headings := ["Syntax", "Description"]
      rows := topic.types.map fun e => (e.declaration, [e.description]) }
  | .operatorList => some
    { title := "Operators"
      headings := ["Operator", "Category", "Description"]
      rows := topic.operators.map fun e => (e.symbol, [e.category, e.description]) }
  | _ => none

/-- A text as code in Markdown. -/
def markdownCode (t : Text) : Text := Text.join ["`", t, "`"]

/-- A row of a Markdown table. -/
def markdownRow (cells : List Text) : Text :=
  Text.join ["| ", Text.intercalate " | " cells, " |\n"]

/-- The topic as a Markdown document. -/
def toMarkdown (topic : Topic) : Text :=
  match topic.table? with
  | some table =>
    Text.join
      [ "# ", table.title, "\n\n", markdownRow table.headings,
        "|", Text.join (table.headings.map fun _ => "---|"), "\n",
        table.rows.flatMap fun (code, cells) => markdownRow (markdownCode code :: cells) ]
  | none =>
    Text.join
      [ "# ", topic.name, "\n\n", markdownCode topic.usage, "\n\n", topic.description, "\n",
        if topic.example_.isEmpty then [] else Text.join ["\n```\n", topic.example_, "\n```\n"] ]

/-- An HTML element on a line of its own. -/
def htmlLine (name content : Text) : Text := Text.element name content ++ Text.newline

/-- An HTML element whose content stands on lines of its own. -/
def htmlBlock (name content : Text) : Text := htmlLine name (Text.newline ++ content)

/-- The topic as an HTML document. -/
def toHtml (topic : Topic) : Text :=
  match topic.table? with
  | some table =>
    Text.join
      [ htmlLine "h1" (Text.html table.title),
        htmlBlock "table"
          (htmlBlock "thead"
              (htmlBlock "tr" (table.headings.flatMap fun h => htmlLine "th" (Text.html h)))
            ++ htmlBlock "tbody"
              (table.rows.flatMap fun (code, cells) =>
                htmlBlock "tr"
                  (htmlLine "td" (Text.element "code" (Text.html code))
                    ++ cells.flatMap fun cell => htmlLine "td" (Text.html cell)))) ]
  | none =>
    Text.join
      [ htmlLine "h1" (Text.html topic.name),
        htmlLine "p" (Text.element "code" (Text.html topic.usage)),
        htmlLine "p" (Text.html topic.description),
        if topic.example_.isEmpty then []
        else
          htmlLine "pre" (Text.element "code" (Text.html topic.example_ ++ Text.newline)) ]

end Goat.Help.Topic
