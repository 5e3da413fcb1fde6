import ScopeScore.Decimal.Binary

set_option autoImplicit false

/-! # The fewest digits that read back

Many decimals read back as the same binary64 number: all those in the interval between the two
midpoints to its neighbours. `shortest` finds the one with the fewest digits and, among these, the
one nearest to the number.

For each count of digits only two decimals can be nearest, the neighbours of the number on the grid
of decimals with that many digits. If any point of a grid lies in the interval then one of these
two does, so the first grid with a hit is the coarsest.
-/

namespace ScopeScore.Decimal

/-- The decimal `digits · 10^exponent`. -/
structure Scientific where
  digits : Nat
  exponent : Int
deriving DecidableEq, Repr

/-- The reals that round to `m · 2^q`, in quarters of its last place: from `4m - 2`, or `4m - 1`
where the neighbour below is only half as far, to `4m + 2`. -/
structure Interval where
  low : Nat
  high : Nat
  /-- A midpoint rounds to the even neighbour, so the ends belong to an even number. -/
  closed : Bool
deriving DecidableEq, Repr

def Interval.of (m : Nat) (q : Int) : Interval where
  low := if m = Nat.pow 2 52 ∧ -1074 < q then 4 * m - 1 else 4 * m - 2
  high := 4 * m + 2
  closed := m % 2 = 0

/-- Does the decimal `c · 10^k` lie in the interval? `r` compares tens with quarters. -/
def Interval.contains (i : Interval) (r : Ratio) (c : Nat) : Bool :=
  if i.closed then i.low * r.twos ≤ c * r.tens && c * r.tens ≤ i.high * r.twos
  else i.low * r.twos < c * r.tens && c * r.tens < i.high * r.twos

/-- The decimal with `n` digits that reads back as `m · 2^q`, the nearest if there are two. -/
def withDigits? (m : Nat) (q : Int) (n : Nat) : Option Scientific :=
  let k := leadingExponent m q + 1 - n
  let r := Ratio.of k (q - 2)
  let i := Interval.of m q
  let below := 4 * m * r.twos / r.tens
  let middle := (2 * below + 1) * r.tens
  let value := 2 * (4 * m * r.twos)
  match i.contains r below, i.contains r (below + 1) with
  | false, false => none
  | true, false => some ⟨below, k⟩
  | false, true => some ⟨below + 1, k⟩
  | true, true =>
      if value < middle ∨ (value = middle ∧ below % 2 = 0) then some ⟨below, k⟩
      else some ⟨below + 1, k⟩

/-- The shortest decimal that reads back as `m · 2^q`, for a positive `m`. Seventeen digits always
suffice. -/
def shortest (m : Nat) (q : Int) : Scientific :=
  ((List.range 17).findSome? fun i => withDigits? m q (i + 1)).getD ⟨m, q⟩

end ScopeScore.Decimal
