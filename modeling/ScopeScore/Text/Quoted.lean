import ScopeScore.Text.Printable

set_option autoImplicit false

/-! # Quoted text

Messages quote names so that every character can be told: a text stands between quotes, and what
would not show is written as an escape.

The quote is an apostrophe, or a quotation mark if the text has apostrophes and no quotation mark.
Backslash, the chosen quote, tab, line feed and carriage return are written as a backslash and one
character; any other character that is not printable as its code point in hexadecimal, with two,
four or eight digits.
-/

namespace ScopeScore.Text

/-- `n` in lower-case hexadecimal with exactly `width` digits, the lowest ones. -/
def hexDigits (width n : Nat) : List Char :=
  match width with
  | 0 => []
  | w + 1 => hexDigits w (n / 16) ++ [Nat.digitChar (n % 16)]

/-- A character by its code point, as short as it can be written. -/
def codePointEscape (c : Char) : List Char :=
  let n := c.toNat
  if n ≤ 0xFF then '\\' :: 'x' :: hexDigits 2 n
  else if n ≤ 0xFFFF then '\\' :: 'u' :: hexDigits 4 n
  else '\\' :: 'U' :: hexDigits 8 n

/-- One character between the quotes `quote`. -/
def quotedChar (quote c : Char) : List Char :=
  if c = quote || c = '\\' then ['\\', c]
  else if c = '\t' then ['\\', 't']
  else if c = '\n' then ['\\', 'n']
  else if c = '\r' then ['\\', 'r']
  else if isPrintable c then [c]
  else codePointEscape c

/-- The quote that needs fewer escapes, the apostrophe by preference. -/
def preferredQuote (cs : List Char) : Char :=
  if cs.contains '\'' && !cs.contains '"' then '"' else '\''

/-- The text between quotes. -/
def quoted (s : String) : String :=
  let cs := s.toList
  let quote := preferredQuote cs
  String.ofList ([quote] ++ cs.flatMap (quotedChar quote) ++ [quote])

end ScopeScore.Text
