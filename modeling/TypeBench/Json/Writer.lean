import TypeBench.Json.Basic

/-!
# Writing JSON

Documents are written in ASCII: every other code point is an escape, one beyond the basic plane a
pair of them. A number of binary64 has the shortest text that reads back.

## Main definitions

* `Json.quoted`: a text as a JSON string.
* `Json.compact`: a document on one line.
* `Json.indented`: a document with one item or member a line, indented by two spaces a level.
-/

namespace TypeBench.Json

/-- The escape of a 16-bit unit. -/
def unitEscape (unit : Nat) : Text := "\\u" ++ Text.hex 4 unit

/-- A code point inside a JSON string. -/
def escaped (c : CodePoint) : Text :=
  if c = '"' ∨ c = '\\' then ['\\', c]
  else if c = '\n' then "\\n"
  else if c = '\r' then "\\r"
  else if c = '\t' then "\\t"
  else if c.val = 0x08 then "\\b"
  else if c.val = 0x0C then "\\f"
  else if 0x20 ≤ c.val ∧ c.val < 0x7F then [c]
  else if c.val < 0x10000 then unitEscape c.val
  else
    let high := 0xD800 + (c.val - 0x10000) / 0x400
    let low := 0xDC00 + (c.val - 0x10000) % 0x400
    unitEscape high ++ unitEscape low

/-- A text as a JSON string. -/
def quoted (t : Text) : Text :=
  "\"" ++ t.flatMap escaped ++ "\""

/-- A binary64 number; infinities and `nan` are words. -/
def floatText : Binary64 → Text
  | .nan => "NaN"
  | .infinity negative => Text.onlyIf negative "-" ++ "Infinity"
  | x => x.text

/-- A document that has no parts. -/
def scalarText : Json → Text
  | null => "null"
  | bool b => if b then "true" else "false"
  | int i => Text.ofInt i
  | float x => floatText x
  | text t => quoted t
  | array _ => "[]"
  | object _ => "\x7b\x7d"

mutual

/-- A document on one line. -/
def compact : Json → Text
  | array items => "[" ++ Text.join ", " (compactItems items) ++ "]"
  | object members => "\x7b" ++ Text.join ", " (compactMembers members) ++ "\x7d"
  | scalar => scalarText scalar

/-- The items of an array, each on one line. -/
def compactItems : List Json → List Text
  | [] => []
  | item :: items => compact item :: compactItems items

/-- The members of an object, each on one line. -/
def compactMembers : List (Text × Json) → List Text
  | [] => []
  | (name, value) :: members => (quoted name ++ ": " ++ compact value) :: compactMembers members

end

/-- A line break and the indentation of a level. -/
def newLine (level : Nat) : Text := '\n' :: Text.fill (2 * level) ' '

/-- Parts between brackets, each on a line of its own. -/
def block (level : Nat) (opening closing : Text) (parts : List Text) : Text :=
  opening ++ newLine (level + 1) ++ Text.join (Text.ofString "," ++ newLine (level + 1)) parts ++
    newLine level ++ closing

mutual

/-- A document that starts at a level of indentation. -/
def indentedAt (level : Nat) : Json → Text
  | array [] => "[]"
  | array items => block level "[" "]" (indentedItems (level + 1) items)
  | object [] => "\x7b\x7d"
  | object members => block level "\x7b" "\x7d" (indentedMembers (level + 1) members)
  | scalar => scalarText scalar

/-- The items of an array at a level of indentation. -/
def indentedItems (level : Nat) : List Json → List Text
  | [] => []
  | item :: items => indentedAt level item :: indentedItems level items

/-- The members of an object at a level of indentation. -/
def indentedMembers (level : Nat) : List (Text × Json) → List Text
  | [] => []
  | (name, value) :: members =>
    (quoted name ++ ": " ++ indentedAt level value) :: indentedMembers level members

end

/-- A document over several lines. -/
def indented (document : Json) : Text :=
  indentedAt 0 document

end TypeBench.Json
