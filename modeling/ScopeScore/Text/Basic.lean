set_option autoImplicit false

/-! # Texts as lists of characters

What files, paths and numbers need of texts:

* `unifyNewlines`: a file may end its lines with a line feed, a carriage return, or both in this
  order. Read as text, every line ends with a line feed alone.
* `splitAt`: the parts of a text between the occurrences of a character, at least one.
* `trimBlanks`: a text without the blanks at its ends. Blanks are the six of ASCII, and outside
  ASCII every character with the Unicode property `White_Space`. The information separators
  `U+001C` to `U+001F` are no blanks here.
* `digitValue?`: the value of a decimal digit of any script. Version 14.0 of the Unicode standard
  has 66 scripts with decimal digits of their own. In each of them the ten digits stand next to each
  other, from zero to nine, so the zeros say it all.
-/

namespace ScopeScore.Text

/-! ## Lines and parts -/

/-- Turns every line end into a single line feed. -/
def unifyNewlines : List Char → List Char
  | [] => []
  | '\r' :: '\n' :: cs => '\n' :: unifyNewlines cs
  | c :: cs => (if c = '\r' then '\n' else c) :: unifyNewlines cs

/-- The parts of a text between the occurrences of `separator`; at least one. -/
def splitAt (separator : Char) : List Char → List (List Char)
  | [] => [[]]
  | c :: cs =>
      if c = separator then [] :: splitAt separator cs
      else
        match splitAt separator cs with
        | [] => [[c]]
        | part :: parts => (c :: part) :: parts

theorem splitAt_ne_nil (separator : Char) (cs : List Char) : splitAt separator cs ≠ [] := by
  cases cs with
  | nil => simp [splitAt]
  | cons c cs =>
      rw [splitAt]
      split
      · simp
      · split <;> simp

/-! ## Blanks -/

/-- Code points of blanks. -/
def blanks : List Nat :=
  [0x09, 0x0A, 0x0B, 0x0C, 0x0D, 0x20, 0x85, 0xA0, 0x1680, 0x2000, 0x2001, 0x2002, 0x2003, 0x2004,
    0x2005, 0x2006, 0x2007, 0x2008, 0x2009, 0x200A, 0x2028, 0x2029, 0x202F, 0x205F, 0x3000]

/-- May this character stand around a number? -/
def isBlank (c : Char) : Bool := blanks.contains c.toNat

/-- Drops the blanks at both ends. -/
def trimBlanks (cs : List Char) : List Char :=
  ((cs.dropWhile isBlank).reverse.dropWhile isBlank).reverse

/-! ## Decimal digits of all scripts -/

/-- The code points of the digits zero, in increasing order. -/
def zeros : List Nat :=
  [0x30, 0x660, 0x6F0, 0x7C0, 0x966, 0x9E6, 0xA66, 0xAE6, 0xB66, 0xBE6, 0xC66, 0xCE6, 0xD66, 0xDE6,
    0xE50, 0xED0, 0xF20, 0x1040, 0x1090, 0x17E0, 0x1810, 0x1946, 0x19D0, 0x1A80, 0x1A90, 0x1B50,
    0x1BB0, 0x1C40, 0x1C50, 0xA620, 0xA8D0, 0xA900, 0xA9D0, 0xA9F0, 0xAA50, 0xABF0, 0xFF10, 0x104A0,
    0x10D30, 0x11066, 0x110F0, 0x11136, 0x111D0, 0x112F0, 0x11450, 0x114D0, 0x11650, 0x116C0,
    0x11730, 0x118E0, 0x11950, 0x11C50, 0x11D50, 0x11DA0, 0x16A60, 0x16AC0, 0x16B50, 0x1D7CE,
    0x1D7D8, 0x1D7E2, 0x1D7EC, 0x1D7F6, 0x1E140, 0x1E2F0, 0x1E950, 0x1FBF0]

/-- The value of a decimal digit of any script. -/
def digitValue? (c : Char) : Option Nat :=
  (zeros.find? fun z => z ≤ c.toNat && c.toNat ≤ z + 9).map (c.toNat - ·)

/-- Is this character a decimal digit of some script? -/
def isDecimalDigit (c : Char) : Bool := (digitValue? c).isSome

end ScopeScore.Text
