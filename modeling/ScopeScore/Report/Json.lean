import ScopeScore.Report.Frame
import ScopeScore.Text.Quoted

set_option autoImplicit false

/-! # Frames as JSON

A frame is a list of objects, one for each row, every member on a line of its own. Strings are
plain ASCII: what is not, and every control, is written by its UTF-16 units.
-/

namespace ScopeScore.Json

open Text (hexDigits)

/-- The UTF-16 units of a character. -/
def units (c : Char) : List Nat :=
  let n := c.toNat
  if n < 0x10000 then [n]
  else [0xD800 + (n - 0x10000) / 0x400, 0xDC00 + (n - 0x10000) % 0x400]

/-- A UTF-16 unit by its number. -/
def unitEscape (n : Nat) : List Char := '\\' :: 'u' :: hexDigits 4 n

/-- The letter that stands for a character after a backslash, if there is one. -/
def letterEscape? (c : Char) : Option Char :=
  if c = '"' || c = '\\' || c = '/' then some c
  else if c = '\n' then some 'n'
  else if c = '\r' then some 'r'
  else if c = '\t' then some 't'
  else if c.toNat = 8 then some 'b'
  else if c.toNat = 12 then some 'f'
  else none

/-- One character inside a string. -/
def escape (c : Char) : List Char :=
  match letterEscape? c with
  | some letter => ['\\', letter]
  | none => if c.toNat < 0x20 || 0x7F < c.toNat then (units c).flatMap unitEscape else [c]

/-- A string. -/
def string (s : String) : List Char := '"' :: s.toList.flatMap escape ++ ['"']

/-! ## Numbers -/

/-- The places to which binary64 numbers are rounded. -/
def places : Nat := 10

/-- The whole part of a number that is not negative, and its fraction counted in units of the last
place. The fraction is scaled as a binary64 number, so what comes out as half a unit counts as one,
and that goes to the even neighbour, but to one unit rather than none. -/
def wholeAndUnits (size : Float) : Nat × Nat :=
  let whole := size.toUInt64
  let scaled := (size - whole.toFloat) * Float.ofNat (Nat.pow 10 places)
  let below := scaled.toUInt64
  let rest := scaled - below.toFloat
  let up := rest > 0.5 || (rest == 0.5 && (below == 0 || below % 2 == 1))
  let units := below.toNat + (if up then 1 else 0)
  if units < Nat.pow 10 places then (whole.toNat, units) else (whole.toNat + 1, 0)

/-- A number that is not negative, written out. -/
def writtenOut (size : Float) : List Char :=
  let (whole, units) := wholeAndUnits size
  Decimal.trimPlaces (Nat.toDigits 10 whole ++ '.' :: Decimal.padded places units)

/-- A binary64 number: written out with at most ten places, or with at most ten digits and an
exponent if it is not below 10^16 or not above 10^-15. What is no number is null. -/
def real (x : Float) : List Char :=
  match Decimal.Parts.of x with
  | .finite negative m q =>
      let sign := Decimal.signOf (negative && m != 0)
      let size := x.abs
      if size > 9999999999999999 || (m != 0 && size < 1e-15) then
        let (ds, exponent) := Decimal.rounded places m q
        sign ++ Decimal.withExponent 2 (Decimal.dropZeros ds) exponent
      else sign ++ writtenOut size
  | _ => "null".toList

def amount : Amount → List Char
  | .int n => (toString n).toList
  | .real x => real x

/-! ## Objects -/

/-- The members of a row: each name with its value. -/
def members (row : Row) : List (String × List Char) :=
  [("file", string row.file), ("signature", string row.signature),
    ("location", (toString row.location).toList), ("depth", (toString row.depth).toList),
    ("score", amount row.score)]

/-- One member on its line. -/
def member (m : String × List Char) : List Char :=
  "    ".toList ++ string m.1 ++ ':' :: m.2

/-- The object of a row, set in by two blanks. -/
def object (row : Row) : List Char :=
  "  \x7b\n".toList ++ List.intercalate [',', '\n'] ((members row).map member) ++
    "\n  \x7d".toList

/-- A frame as a list of objects. -/
def render (frame : Frame) : String :=
  String.ofList
    ("[\n".toList ++ List.intercalate [',', '\n'] (frame.rows.map object) ++ "\n]".toList)

end ScopeScore.Json
