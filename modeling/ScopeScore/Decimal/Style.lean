import ScopeScore.Decimal.Shortest
import ScopeScore.Amount

set_option autoImplicit false

/-! # How numbers are written

`Style` holds the decisions that a spelling of binary64 numbers makes beyond its digits: which
numbers are written out and which with an exponent, how the exponent looks, and the words for what
is no number. `Amount.text` is the spelling that messages and reports use.

`fixed` and `rounded` write a number with a given count of places or of digits instead; there a
half goes to the even neighbour.
-/

namespace ScopeScore.Decimal

/-- The decisions of a spelling. -/
structure Style where
  /-- Numbers whose leading digit has an exponent from here … -/
  positionalFrom : Int
  /-- … to below here are written out. -/
  positionalBelow : Int
  /-- The least count of digits of an exponent. -/
  exponentWidth : Nat
  nan : String
  infinity : String
deriving DecidableEq, Repr

/-- The digits of `n` with at least `width` of them. -/
def padded (width n : Nat) : List Char :=
  let ds := Nat.toDigits 10 n
  List.replicate (width - ds.length) '0' ++ ds

/-- Drops zeros at the end. -/
def dropZeros (ds : List Char) : List Char := (ds.reverse.dropWhile (· == '0')).reverse

/-- Drops zeros at the end of a number with a point, but leaves a digit after the point. -/
def trimPlaces (cs : List Char) : List Char :=
  let short := dropZeros cs
  if short.getLast? == some '.' then short ++ ['0'] else short

/-- Digits with a point after the first `count` of them; both sides of the point keep at least one
digit. -/
def withPoint (ds : List Char) (count : Int) : List Char :=
  let front := List.replicate (1 - count).toNat '0' ++ ds
  let split := if count < 1 then 1 else count.toNat
  let front := front ++ List.replicate (split - front.length) '0'
  let fraction := front.drop split
  front.take split ++ '.' :: (if fraction.isEmpty then ['0'] else fraction)

/-- A leading digit, the further ones behind a point, and an exponent with its sign. -/
def withExponent (width : Nat) (ds : List Char) (exponent : Int) : List Char :=
  let mantissa :=
    match ds with
    | d :: e :: rest => d :: '.' :: e :: rest
    | short => short
  let sign := if exponent < 0 then '-' else '+'
  mantissa ++ 'e' :: sign :: padded width exponent.natAbs

/-- The sign of a number, if it has to be written. -/
def signOf (negative : Bool) : List Char := if negative then ['-'] else []

/-- The shortest decimal of a finite number, in the given style. -/
def Style.finite (style : Style) (m : Nat) (q : Int) : List Char :=
  if m = 0 then ['0', '.', '0']
  else
    let s := shortest m q
    let all := Nat.toDigits 10 s.digits
    let leading := s.exponent + all.length - 1
    let ds := dropZeros all
    if style.positionalFrom ≤ leading && leading < style.positionalBelow then
      withPoint ds (leading + 1)
    else
      withExponent style.exponentWidth ds leading

/-- A binary64 number in the given style. -/
def Style.text (style : Style) (x : Float) : String :=
  match Parts.of x with
  | .nan => style.nan
  | .infinite negative => String.ofList (signOf negative ++ style.infinity.toList)
  | .finite negative m q => String.ofList (signOf negative ++ style.finite m q)

/-- The style of messages and reports: written out from 0.0001 to below 10^16, always with a point,
otherwise with a signed exponent of at least two digits. -/
def reportStyle : Style where
  positionalFrom := -4
  positionalBelow := 16
  exponentWidth := 2
  nan := "nan"
  infinity := "inf"

/-! ## A given count of places or digits -/

/-- `m · 2^q` with exactly `places` digits after the point, for `places` at least 1. -/
def fixed (places m : Nat) (q : Int) : List Char :=
  let r := Ratio.of (-(places : Int)) q
  let ds := padded (places + 1) (roundDiv (m * r.twos) r.tens)
  let split := ds.length - places
  ds.take split ++ '.' :: ds.drop split

/-- `m · 2^q` rounded to `count` digits, as its digits and the exponent of the leading one. -/
def rounded (count m : Nat) (q : Int) : List Char × Int :=
  if m = 0 then (List.replicate count '0', 0)
  else
    let leading := leadingExponent m q
    let r := Ratio.of (leading + 1 - count) q
    let ds := Nat.toDigits 10 (roundDiv (m * r.twos) r.tens)
    (ds.take count, leading + ds.length - count)

end ScopeScore.Decimal

namespace ScopeScore

/-- An amount as it is written in messages: an integer by its digits, a binary64 number by the
fewest digits that read back. -/
def Amount.text : Amount → String
  | .int n => toString n
  | .real x => Decimal.reportStyle.text x

end ScopeScore
