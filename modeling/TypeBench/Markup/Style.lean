import TypeBench.Markup.Colour
import TypeBench.Named

/-!
# Styles in words

A style is written in words: attributes, a colour, a colour behind the word `on`, and a target
behind the word `link`. Many texts write the same style, and one of them is its normal form. A text
that writes no style is its own normal form, in lower case and without the blanks around it.

## Main definitions

* `Style`: attributes, colours and a target.
* `Style.read?`: the style that words write.
* `Style.text`: a style in words.
* `Style.normalForm`: the normal form of a text.
-/

namespace TypeBench.Markup

/-- A style: the attributes that are put on or off, the colours of text and ground, and a target. -/
structure Style where
  attributes : Named Bool
  colour : Option Text
  ground : Option Text
  target : Option Text
  deriving DecidableEq

namespace Style

/-- No style. -/
def none : Style := ⟨[], .none, .none, .none⟩

/-- The attributes in the order in which they are written, each with the words for it. -/
def attributeWords : List (String × List String) :=
  [("bold", ["bold", "b"]), ("dim", ["dim", "d"]), ("italic", ["italic", "i"]),
    ("underline", ["underline", "u"]), ("blink", ["blink"]), ("blink2", ["blink2"]),
    ("reverse", ["reverse", "r"]), ("conceal", ["conceal", "c"]), ("strike", ["strike", "s"]),
    ("underline2", ["underline2", "uu"]), ("frame", ["frame"]), ("encircle", ["encircle"]),
    ("overline", ["overline", "o"])]

/-- The attribute that a word stands for. -/
def attribute? (word : Text) : Option Text :=
  (attributeWords.find? fun entry => entry.2.any (Text.ofString · = word)).map fun entry =>
    Text.ofString entry.1

/-- A style with an attribute put on or off. -/
def put (s : Style) (on : Bool) (name : Text) : Style :=
  { s with attributes := Named.put name on s.attributes }

/-- A style with what words write added to it. The words behind `not` and `link` keep their
case. -/
def readInto? : List Text → Style → Option Style
  | [], s => some s
  | word :: rest, s =>
    let lowered := word.map CodePoint.lower
    if lowered = Text.ofString "on" then
      match rest with
      | [] => .none
      | colour :: rest =>
        let colour := colour.map CodePoint.lower
        if Colour.isColour colour then readInto? rest { s with ground := some colour } else .none
    else if lowered = Text.ofString "not" then
      match rest with
      | [] => .none
      | name :: rest => (attribute? name).bind fun name => readInto? rest (s.put false name)
    else if lowered = Text.ofString "link" then
      match rest with
      | [] => .none
      | target :: rest => readInto? rest { s with target := some target }
    else
      match attribute? lowered with
      | some name => readInto? rest (s.put true name)
      | .none =>
        if Colour.isColour lowered then readInto? rest { s with colour := some lowered } else .none

/-- The word for no style. -/
def noneWord : Text := "none"

/-- The style that a text writes. -/
def read? (t : Text) : Option Style :=
  if t.trimOf CodePoint.isGap = noneWord then some none
  else readInto? (t.wordsBy CodePoint.isGap) none

/-- The words for an attribute of a style, if the style has it. -/
def attributeText (s : Style) (name : Text) : List Text :=
  match s.attributes.lookup name with
  | some true => [name]
  | some false => ["not", name]
  | .none => []

/-- A style in words. -/
def text (s : Style) : Text :=
  let words := (attributeWords.flatMap fun entry => s.attributeText entry.1) ++
    s.colour.toList ++ (s.ground.map fun colour => [Text.ofString "on", colour]).getD [] ++
    (s.target.map fun target => [Text.ofString "link", target]).getD []
  if words.isEmpty then noneWord else Text.join " " words

/-- The normal form of a text. -/
def normalForm (t : Text) : Text :=
  match read? t with
  | some s => s.text
  | .none => (t.trimOf CodePoint.isGap).map CodePoint.lower

end Style

end TypeBench.Markup
