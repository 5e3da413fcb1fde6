import ScopeScore.Decimal.Binary
import ScopeScore.Text.Basic

set_option autoImplicit false

/-! # Reading binary64 numbers

`readNumber?` reads a number as people write them: blanks around it, a sign, digits of any script
with a point among them, an exponent, and single underscores between digits. `inf`, `infinity` and
`nan` are numbers too, in letters of either case. The result is the nearest binary64 number, a half
going to the even neighbour.
-/

namespace ScopeScore.Decimal

/-- Writes every digit in ASCII. -/
def asciiDigits (cs : List Char) : List Char :=
  cs.map fun c =>
    match Text.digitValue? c with
    | some d => Nat.digitChar d
    | none => c

/-- Takes out the underscores, each of which has to stand between two digits. `before` is the
character before. -/
def dropUnderscores (before : Option Char) : List Char → Option (List Char)
  | [] => some []
  | '_' :: next :: cs =>
      if before.any Char.isDigit && next.isDigit then dropUnderscores none (next :: cs) else none
  | c :: cs => if c = '_' then none else (dropUnderscores (some c) cs).map (c :: ·)
termination_by cs => cs.length

/-- A sign, and whether it is a minus. -/
def splitSign : List Char → Bool × List Char
  | '-' :: cs => (true, cs)
  | '+' :: cs => (false, cs)
  | cs => (false, cs)

/-- The value of digits. -/
def digitsValue (ds : List Char) : Nat := ds.foldl (fun n d => 10 * n + (d.toNat - 48)) 0

/-- An exponent behind a number; nothing stands for 0. -/
def readExponent? : List Char → Option Int
  | [] => some 0
  | e :: cs =>
      if e = 'e' || e = 'E' then
        let (negative, ds) := splitSign cs
        if ds.isEmpty || !ds.all Char.isDigit then none
        else some (if negative then -(digitsValue ds : Int) else digitsValue ds)
      else none

/-- The number nearest to `m · 10^k`. Far outside the range of binary64 numbers the power of ten is
not worked out: such a number is infinite or zero. -/
def nearest (m : Nat) (k : Int) : Float :=
  let leading := (digitCount m : Int) + k
  if m = 0 ∨ leading < -400 then 0.0
  else if 400 < leading then 1.0 / 0.0
  else Float.ofScientific m (decide (k < 0)) k.natAbs

/-- Digits with at most one point among them, and an exponent. -/
def readDecimal? (cs : List Char) : Option Float :=
  let whole := cs.takeWhile Char.isDigit
  let rest := cs.dropWhile Char.isDigit
  let (fraction, rest) :=
    match rest with
    | '.' :: rest => (rest.takeWhile Char.isDigit, rest.dropWhile Char.isDigit)
    | rest => ([], rest)
  if whole.isEmpty && fraction.isEmpty then none
  else
    (readExponent? rest).map fun e =>
      nearest (digitsValue (whole ++ fraction)) (e - fraction.length)

/-- A number without a sign. -/
def readUnsigned? (cs : List Char) : Option Float :=
  let word := String.ofList (cs.map Char.toLower)
  if word == "inf" || word == "infinity" then some (1.0 / 0.0)
  else if word == "nan" then some (0.0 / 0.0)
  else readDecimal? cs

/-- Reads a number. -/
def readNumber? (s : String) : Option Float := do
  let cs ← dropUnderscores none (asciiDigits (Text.trimBlanks s.toList))
  let (negative, cs) := splitSign cs
  let x ← readUnsigned? cs
  return if negative then -x else x

end ScopeScore.Decimal
