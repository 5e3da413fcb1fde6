set_option autoImplicit false

/-! # Binary64 numbers as exact fractions

A finite binary64 number is `± m · 2^q` with integers `m` and `q`. `Parts.of` takes a number apart
into these, from its bits, so that what is said about decimals can be said in exact integer
arithmetic.

`Ratio` compares such a number with multiples of a power of ten by cross-multiplication.
-/

namespace ScopeScore.Decimal

/-- A binary64 number taken apart. -/
inductive Parts where
  | nan
  | infinite (negative : Bool)
  /-- The number `m · 2^q`, with a minus sign if `negative`. -/
  | finite (negative : Bool) (m : Nat) (q : Int)
deriving DecidableEq, Repr

/-- Takes a number apart. The eleven exponent bits are biased by 1075, which counts the 52 bits of
the fraction as integral; the exponent 0 marks the numbers without a leading bit. -/
def Parts.of (x : Float) : Parts :=
  let bits := x.toBits.toNat
  let negative := decide (Nat.pow 2 63 ≤ bits)
  let exponent : Nat := bits / Nat.pow 2 52 % 2048
  let fraction : Nat := bits % Nat.pow 2 52
  if exponent = 2047 then
    if fraction = 0 then .infinite negative else .nan
  else if exponent = 0 then .finite negative fraction (-1074)
  else .finite negative (Nat.pow 2 52 + fraction) ((exponent : Int) - 1075)

/-- Compares an integer with a number, exactly; nothing can be said about what is no number. -/
def Parts.compareInt (n : Int) : Parts → Option Ordering
  | .nan => none
  | .infinite negative => some (if negative then .gt else .lt)
  | .finite negative m q =>
      let signed : Int := if negative then -(m : Int) else m
      some (compare (n * (Nat.pow 2 (-q).toNat : Nat)) (signed * (Nat.pow 2 q.toNat : Nat)))

/-- The factors by which `c · 10^k` and `x · 2^q` become comparable integers: `c · tens` and
`x · twos` stand in the same relation to each other. -/
structure Ratio where
  tens : Nat
  twos : Nat
deriving DecidableEq, Repr

/-- The factors for the powers `10^k` and `2^q`. -/
def Ratio.of (k q : Int) : Ratio where
  tens := Nat.pow 10 k.toNat * Nat.pow 2 (-q).toNat
  twos := Nat.pow 2 q.toNat * Nat.pow 10 (-k).toNat

/-- How many decimal digits `n` has; 1 for zero. -/
def digitCount (n : Nat) : Nat := (Nat.toDigits 10 n).length

/-- The exponent `e` with `10^e ≤ m · 2^q < 10^(e+1)`, for a positive `m`: the place value of the
leading decimal digit. -/
def leadingExponent (m : Nat) (q : Int) : Int :=
  let num := m * Nat.pow 2 q.toNat
  let den := Nat.pow 2 (-q).toNat
  if den ≤ num then (digitCount (num / den) : Int) - 1
  else -(digitCount ((den - 1) / num) : Int)

/-- The integer nearest to `num / den`; a half goes to the even neighbour. -/
def roundDiv (num den : Nat) : Nat :=
  let quotient := num / den
  let twice := 2 * (num % den)
  if twice < den then quotient
  else if den < twice then quotient + 1
  else if quotient % 2 = 0 then quotient else quotient + 1

end ScopeScore.Decimal
