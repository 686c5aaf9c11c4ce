/-!
# Text as code points

Source files, labels and messages are sequences of Unicode code points. A case file may hold a
surrogate on its own, which no character type admits, so a code point here is any number below
`0x110000` and a text is a list of them.

## Main definitions

* `CodePoint`, `Text`: a code point, and a text as a list of code points.
* `Text.ofString`, `Text.toString`: the passage from and to character strings.
* `Text.contains`, `Text.join`, `Text.padRight`, `Text.padLeft`: search and layout.
* `Text.splitOnPoint`: the pieces between the occurrences of a separator.

## Main results

* `Text.contains_iff`: `cue.contains name` holds when `name` has `cue` as a contiguous part.
* `Text.length_padRight`, `Text.length_padLeft`: padding reaches the width and never cuts.
-/

namespace TypeBench

/-- A Unicode code point, surrogates included. -/
abbrev CodePoint := Fin 0x110000

/-- A text is a list of code points. -/
abbrev Text := List CodePoint

namespace CodePoint

/-- The code point of a character. -/
def ofChar (c : Char) : CodePoint :=
  ⟨c.toNat, by
    have h := c.valid
    simp only [UInt32.isValidChar, Nat.isValidChar] at h
    change c.val.toNat < 0x110000
    omega⟩

instance : Coe Char CodePoint := ⟨ofChar⟩

/-- A surrogate is a code point that only has a meaning in a pair. -/
def isSurrogate (c : CodePoint) : Bool :=
  0xD800 ≤ c.val && c.val ≤ 0xDFFF

/-- The character of a code point; a surrogate, which has none, becomes U+FFFD. -/
def toChar (c : CodePoint) : Char :=
  if c.isSurrogate then '\uFFFD' else Char.ofNat c.val

/-- An ASCII decimal digit. -/
def isDigit (c : CodePoint) : Bool :=
  0x30 ≤ c.val && c.val ≤ 0x39

/-- The value of an ASCII decimal digit. -/
def digit (c : CodePoint) : Nat :=
  c.val - 0x30

/-- The value of an ASCII hexadecimal digit, of either case. -/
def hexDigit? (c : CodePoint) : Option Nat :=
  if c.isDigit then some c.digit
  else if 0x41 ≤ c.val && c.val ≤ 0x46 then some (c.val - 0x41 + 10)
  else if 0x61 ≤ c.val && c.val ≤ 0x66 then some (c.val - 0x61 + 10)
  else none

/-- The lower-case form of an ASCII letter. -/
def lower (c : CodePoint) : CodePoint :=
  if h : 0x41 ≤ c.val ∧ c.val ≤ 0x5A then ⟨c.val + 0x20, by omega⟩ else c

/-- An ASCII letter. -/
def isLetter (c : CodePoint) : Bool :=
  (0x41 ≤ c.val && c.val ≤ 0x5A) || (0x61 ≤ c.val && c.val ≤ 0x7A)

/-- A code point with the Unicode property `White_Space`. -/
def isBlank (c : CodePoint) : Bool :=
  (0x09 ≤ c.val && c.val ≤ 0x0D) || c.val == 0x20 || c.val == 0x85 || c.val == 0xA0 ||
    c.val == 0x1680 || (0x2000 ≤ c.val && c.val ≤ 0x200A) || c.val == 0x2028 ||
    c.val == 0x2029 || c.val == 0x202F || c.val == 0x205F || c.val == 0x3000

/-- A blank of ASCII. -/
def isAsciiBlank (c : CodePoint) : Bool :=
  (0x09 ≤ c.val && c.val ≤ 0x0D) || c.val == 0x20

/-- A blank, or one of the four separators of information. -/
def isGap (c : CodePoint) : Bool := c.isBlank || (0x1C ≤ c.val && c.val ≤ 0x1F)

end CodePoint

namespace Text

/-- The code points of a character string. -/
def ofString (s : String) : Text :=
  s.toList.map CodePoint.ofChar

instance : Coe String Text := ⟨ofString⟩

/-- The characters of a text, a lone surrogate as U+FFFD. -/
def toString (t : Text) : String :=
  String.ofList (t.map CodePoint.toChar)

/-- The decimal digits of a natural number. -/
def ofNat (n : Nat) : Text :=
  ofString n.repr

/-- The decimal digits of an integer, with a minus sign below zero. -/
def ofInt (i : Int) : Text :=
  if i < 0 then ofString "-" ++ ofNat i.natAbs else ofNat i.natAbs

/-- The number that a list of decimal digits writes. -/
def digitsToNat (t : Text) : Nat :=
  t.foldl (fun n c => 10 * n + c.digit) 0

/-- Whether some code point of the text is a lone surrogate. -/
def hasSurrogate (t : Text) : Bool :=
  t.any CodePoint.isSurrogate

/-- Whether `cue` occurs in a text as a contiguous part. -/
def contains (cue : Text) : Text → Bool
  | [] => cue.isEmpty
  | c :: rest => cue.isPrefixOf (c :: rest) || contains cue rest

@[simp] theorem contains_nil (cue : Text) : cue.contains [] = cue.isEmpty := rfl

theorem contains_cons (cue : Text) (c : CodePoint) (rest : Text) :
    cue.contains (c :: rest) = (cue.isPrefixOf (c :: rest) || cue.contains rest) := rfl

theorem contains_iff (cue name : Text) :
    cue.contains name = true ↔ ∃ before after, name = before ++ cue ++ after := by
  induction name with
  | nil =>
    rw [contains_nil, List.isEmpty_iff]
    constructor
    · rintro rfl
      exact ⟨[], [], rfl⟩
    · rintro ⟨before, after, h⟩
      have := congrArg List.length h
      simp only [List.length_nil, List.length_append] at this
      exact List.eq_nil_of_length_eq_zero (by omega)
  | cons c rest ih =>
    rw [contains_cons, Bool.or_eq_true, ih, List.isPrefixOf_iff_prefix]
    constructor
    · rintro (⟨after, h⟩ | ⟨before, after, rfl⟩)
      · exact ⟨[], after, by simpa using h.symm⟩
      · exact ⟨c :: before, after, by simp⟩
    · rintro ⟨before, after, h⟩
      cases before with
      | nil => exact Or.inl ⟨after, by simpa using h.symm⟩
      | cons d before =>
        simp only [List.cons_append, List.cons.injEq] at h
        exact Or.inr ⟨before, after, h.2⟩

/-- The texts of a list, with a separator between neighbours. -/
def join (separator : Text) (parts : List Text) : Text :=
  List.intercalate separator parts

/-- The pieces of a text between the occurrences of one code point. -/
def splitOnPoint (separator : CodePoint) : Text → List Text
  | [] => [[]]
  | c :: rest =>
    if c = separator then [] :: splitOnPoint separator rest
    else match splitOnPoint separator rest with
      | [] => [[c]]
      | piece :: pieces => (c :: piece) :: pieces

/-- The longest parts of a text without separators. -/
def wordsBy (isSeparator : CodePoint → Bool) (t : Text) : List Text :=
  let separator : CodePoint := ' '
  let spaced : Text := t.map fun c => if isSeparator c then separator else c
  (splitOnPoint separator spaced).filter fun word => !word.isEmpty

/-- The rest of a text after a part that it starts with. -/
def after? (t start : Text) : Option Text :=
  if start.isPrefixOf t then some (t.drop start.length) else none

theorem length_after? {t start rest : Text} (h : t.after? start = some rest) :
    rest.length + start.length = t.length := by
  unfold after? at h
  split at h
  · rename_i hpre
    have := (List.isPrefixOf_iff_prefix.1 hpre).length_le
    cases h
    simp only [List.length_drop]
    omega
  · cases h

/-- A text where a condition holds, and nothing where it does not. -/
def onlyIf (condition : Prop) [Decidable condition] (t : Text) : Text :=
  if condition then t else []

/-- One code point a number of times. -/
def fill (count : Nat) (c : CodePoint) : Text :=
  List.replicate count c

/-- A text followed by spaces up to a width. -/
def padRight (width : Nat) (t : Text) : Text :=
  t ++ fill (width - t.length) ' '

/-- A text preceded by spaces up to a width. -/
def padLeft (width : Nat) (t : Text) : Text :=
  fill (width - t.length) ' ' ++ t

@[simp] theorem length_padRight (width : Nat) (t : Text) :
    (t.padRight width).length = max width t.length := by
  simp only [padRight, fill, List.length_append, List.length_replicate]
  omega

@[simp] theorem length_padLeft (width : Nat) (t : Text) :
    (t.padLeft width).length = max width t.length := by
  simp only [padLeft, fill, List.length_append, List.length_replicate]
  omega

/-- A text without the code points of a class at its two ends. -/
def trimOf (isOuter : CodePoint → Bool) (t : Text) : Text :=
  ((t.dropWhile isOuter).reverse.dropWhile isOuter).reverse

/-- A text without the blanks at its two ends. -/
def trim (t : Text) : Text := t.trimOf CodePoint.isBlank

/-- The hexadecimal digits of a number, in lower case, filled with zeros up to a width. -/
def hex (width n : Nat) : Text :=
  let digits := (Nat.toDigits 16 n).map CodePoint.ofChar
  fill (width - digits.length) '0' ++ digits

/-- The order of texts by their code points. -/
def le : Text → Text → Bool
  | [], _ => true
  | _ :: _, [] => false
  | c :: s, d :: t => c.val < d.val || (c.val == d.val && le s t)

end Text

end TypeBench
