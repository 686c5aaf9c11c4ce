import TypeBench.Text.Basic

/-!
# Styled text

A console switches styles on and off at sequences that start with the escape character. A console
without styles is shown a text with these sequences taken out.

## Main definitions

* `Style`, `Text.styled`: styles, and a text in styles.
* `Text.withoutStyles`: a text with the styles taken out.
-/

namespace TypeBench

/-- Styles of text. -/
inductive Style where
  | reset
  | bold
  | dim
  | red
  | green
  | yellow
  | blue
  | magenta
  | cyan
  | white
  deriving DecidableEq

/-- The number of a style. -/
def Style.number : Style → Nat
  | reset => 0
  | bold => 1
  | dim => 2
  | red => 31
  | green => 32
  | yellow => 33
  | blue => 34
  | magenta => 35
  | cyan => 36
  | white => 97

/-- The escape character. -/
def escapePoint : CodePoint := ⟨27, by decide⟩

/-- The sequence that switches a style on. -/
def Style.code (style : Style) : Text :=
  escapePoint :: ("[" ++ Text.ofNat style.number ++ "m")

/-- A text in styles. -/
def Text.styled (styles : List Style) (t : Text) : Text :=
  styles.flatMap Style.code ++ t ++ Style.reset.code

/-- Whether a code point may stand between the opening and the letter of a style sequence. -/
def isStyleParameter (c : CodePoint) : Bool := c.isDigit || c = ';' || c = '?'

/-- The text after the style sequence at its start, if there is one. -/
def afterStyle? : Text → Option Text
  | [] => none
  | c :: rest =>
    if c = escapePoint then
      (Text.after? rest "[").bind fun rest =>
        match rest.dropWhile isStyleParameter with
        | [] => none
        | d :: rest => if d.isLetter then some rest else none
    else none

theorem length_afterStyle?_lt {t rest : Text} (h : afterStyle? t = some rest) :
    rest.length < t.length := by
  cases t with
  | nil => cases h
  | cons c t =>
    rw [afterStyle?] at h
    split at h
    · obtain ⟨body, hbody, h⟩ := Option.bind_eq_some_iff.1 h
      have hlen := Text.length_after? hbody
      have hle := (List.dropWhile_sublist isStyleParameter (l := body)).length_le
      split at h
      · cases h
      · rename_i d tail hdrop
        rw [hdrop, List.length_cons] at hle
        split at h
        · cases h
          simp only [List.length_cons]
          omega
        · cases h
    · cases h

/-- A text with the styles taken out. -/
def Text.withoutStyles (t : Text) : Text :=
  match t with
  | [] => []
  | c :: rest =>
    match h : afterStyle? (c :: rest) with
    | some after =>
      have := length_afterStyle?_lt h
      Text.withoutStyles after
    | none => c :: Text.withoutStyles rest
termination_by t.length
decreasing_by
  · exact this
  · exact Nat.lt_succ_self rest.length

end TypeBench
