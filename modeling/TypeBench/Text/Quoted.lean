import TypeBench.Text.Printable
import TypeBench.Text.Utf8

/-!
# Quoted text

Messages quote a text so that it can be told from the words around it: apostrophes around it, or
double quotes when it holds an apostrophe and no double quote, and escapes for the quote, the
backslash and all that cannot be shown.

## Main definitions

* `Text.quoted`: a text in quotes.
* `Text.quotedBytes`: a byte sequence in quotes, marked with a `b`.
-/

namespace TypeBench.Text

/-- The quote for a text: an apostrophe, unless the text holds one and no double quote. -/
def quoteFor (t : Text) : CodePoint :=
  if t.any (· = '\'') && !t.any (· = '"') then '"' else '\''

/-- The escape that the quote, the backslash and the common blanks share, if one applies. -/
def shortEscape? (quote c : CodePoint) : Option Text :=
  if c = quote || c = '\\' then some ['\\', c]
  else if c = '\t' then some "\\t"
  else if c = '\n' then some "\\n"
  else if c = '\r' then some "\\r"
  else none

/-- A code point inside quotes. -/
def quotedPoint (quote c : CodePoint) : Text :=
  match shortEscape? quote c with
  | some escape => escape
  | none =>
    if c.isShown then [c]
    else if c.val < 0x100 then "\\x" ++ hex 2 c.val
    else if c.val < 0x10000 then "\\u" ++ hex 4 c.val
    else "\\U" ++ hex 8 c.val

/-- A text in quotes. -/
def quoted (t : Text) : Text :=
  let quote := quoteFor t
  quote :: t.flatMap (quotedPoint quote) ++ [quote]

/-- A byte inside quotes: ASCII that can be shown stands for itself. -/
def quotedByte (quote c : CodePoint) : Text :=
  match shortEscape? quote c with
  | some escape => escape
  | none => if 0x20 ≤ c.val && c.val < 0x7F then [c] else "\\x" ++ hex 2 c.val

/-- A byte sequence in quotes, marked with a `b`. -/
def quotedBytes (bytes : Bytes) : Text :=
  let points := bytes.map fun b => Utf8.pointOf b.toNat
  let quote := quoteFor points
  "b" ++ (quote :: points.flatMap (quotedByte quote)) ++ [quote]

end TypeBench.Text
