import TypeBench.Markup.Style

/-!
# Tags in marked-up text

A text may hold tags in brackets: the name of a style opens it, a name behind a slash closes the
style that was opened last under this name, and a slash alone closes the style that was opened last
at all. A backslash before a bracket takes its meaning away, and so does every odd number of them.
A text cannot be shown if it closes what is not open; styles may stay open.

## Main definitions

* `Tag`, `Tag.listIn`: tags, and those of a text with their positions.
* `Tag.Fault`: what may be wrong with a closing tag.
* `Tag.fault?`: what is wrong with the tags of a text.

## Main results

* `Tag.listIn_of_plain`: a text without an opening bracket has no tags.
-/

namespace TypeBench.Markup

/-- A tag: its name, a slash included, and what stands behind an equals sign in it. -/
structure Tag where
  name : Text
  parameters : Option Text
  deriving DecidableEq

namespace Tag

/-- A tag as it is written. -/
def text (tag : Tag) : Text :=
  "[" ++ tag.name ++ (tag.parameters.map fun words => Text.ofString "=" ++ words).getD [] ++ "]"

/-- The tag of what stands between brackets. -/
def ofContent (content : Text) : Tag :=
  let (name, rest) := content.span fun c : CodePoint => c ≠ '='
  ⟨name, rest.tail?⟩

/-- What stands before a closing bracket, with no opening one among it. -/
def contentBefore? : Text → Option Text
  | [] => none
  | c :: rest =>
    if c = ']' then some []
    else if c = '[' then none
    else (contentBefore? rest).map (c :: ·)

/-- Whether the content of a tag may begin with a code point. -/
def begins (c : CodePoint) : Bool :=
  (0x61 ≤ c.val && c.val ≤ 0x7A) || c = '#' || c = '/' || c = '@'

/-- The tag that goes on behind an opening bracket. -/
def behindBracket? : Text → Option Tag
  | [] => none
  | c :: rest =>
    if begins c then (contentBefore? rest).map fun content => ofContent (c :: content) else none

/-- The tags of a text that starts at a position behind a number of backslashes. The content of a
tag holds no opening bracket, so no tag is found inside another one. -/
def listFrom (position backslashes : Nat) : Text → List (Nat × Tag)
  | [] => []
  | c :: rest =>
    if c = '\\' then listFrom (position + 1) (backslashes + 1) rest
    else
      let here :=
        if c = '[' ∧ backslashes % 2 = 0 then (behindBracket? rest).map fun tag => (position, tag)
        else none
      here.toList ++ listFrom (position + 1) 0 rest

/-- The tags of a text with the positions of their opening brackets. -/
def listIn (t : Text) : List (Nat × Tag) := listFrom 0 0 t

/-- What may be wrong with a closing tag at a position. -/
inductive Fault where
  | notOpen (tag : Tag) (position : Nat)
  | nothingOpen (position : Nat)
  deriving DecidableEq

/-- The words about a faulty tag. -/
def Fault.message : Fault → Text
  | notOpen tag position =>
    "closing tag '" ++ tag.text ++ "' at position " ++ Text.ofNat position ++
      " doesn't match any open tag"
  | nothingOpen position =>
    "closing tag '[/]' at position " ++ Text.ofNat position ++ " has nothing to close"

/-- The name that a closing tag closes; it is empty where the last style is meant. -/
def closed? (tag : Tag) : Option Text :=
  (tag.name.after? "/").map (Text.trimOf CodePoint.isGap)

/-- What is wrong with tags where styles are open, the last one first. -/
def faultAmong? : List Text → List (Nat × Tag) → Option Fault
  | _, [] => none
  | opened, (position, tag) :: rest =>
    match tag.closed? with
    | none => faultAmong? (Style.normalForm tag.name :: opened) rest
    | some [] =>
      match opened with
      | [] => some (.nothingOpen position)
      | _ :: opened => faultAmong? opened rest
    | some name =>
      let name := Style.normalForm name
      if opened.contains name then faultAmong? (opened.erase name) rest
      else some (.notOpen tag position)

/-- What is wrong with the tags of a text. -/
def fault? (t : Text) : Option Fault := faultAmong? [] (listIn t)

theorem listFrom_of_plain {t : Text} (h : ∀ c ∈ t, c ≠ ('[' : CodePoint))
    (position backslashes : Nat) : listFrom position backslashes t = [] := by
  induction t generalizing position backslashes with
  | nil => rfl
  | cons c rest ih =>
    have hc : c ≠ ('[' : CodePoint) := h c List.mem_cons_self
    have hrest := ih fun d hd => h d (List.mem_cons_of_mem c hd)
    simp [listFrom, hc, hrest]

theorem listIn_of_plain {t : Text} (h : ∀ c ∈ t, c ≠ ('[' : CodePoint)) : listIn t = [] :=
  listFrom_of_plain h 0 0

theorem fault?_of_plain {t : Text} (h : ∀ c ∈ t, c ≠ ('[' : CodePoint)) : fault? t = none := by
  rw [fault?, listIn_of_plain h, faultAmong?]

end Tag

end TypeBench.Markup
