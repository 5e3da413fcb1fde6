import ScopeScore.Decimal.Binary
import ScopeScore.Failure

set_option autoImplicit false

/-! # Amounts

Weights and scores are integers of any size or binary64 numbers, and which of the two is part of
the value: adding integers gives an integer, and an addition with a binary64 number gives one. The
integer of a mixed pair becomes the nearest binary64 number first, a half going to the even
neighbour; if there is no finite one near it, the addition fails (`Amount.add`). Comparing changes
nothing: `Amount.le` is about the values themselves.
-/

namespace ScopeScore

/-- An integer or a binary64 number. -/
inductive Amount where
  | int (n : Int)
  | real (x : Float)
deriving Repr, Inhabited

namespace Amount

/-- The amount from which every sum starts. -/
def zero : Amount := .int 0

/-- The nearest binary64 number, which is infinite if no finite one is near. -/
def rounded : Amount → Float
  | .int n => Float.ofInt n
  | .real x => x

/-- The nearest binary64 number, if a finite one is near. -/
def toFloat : Amount → Except Failure Float
  | .int n =>
      let x := Float.ofInt n
      if x.isInf then .error .tooLarge else .ok x
  | .real x => .ok x

/-- The sum of two amounts. -/
def add : Amount → Amount → Except Failure Amount
  | .int a, .int b => .ok (.int (a + b))
  | a, b => do return .real ((← a.toFloat) + (← b.toFloat))

/-- The sum of the amounts that `f` makes of a list, from the integer zero and from left to right.
Each is made when its turn has come, so the first fault ends the sum, be it of `f` or of adding. -/
def sumOf {α : Type} (f : α → Except Failure Amount) (xs : List α) : Except Failure Amount :=
  xs.foldlM (fun total x => do total.add (← f x)) zero

/-- Is `a` at most `b`? The values are compared exactly, those of a mixed pair too. A NaN is
comparable to nothing. -/
def le : Amount → Amount → Bool
  | .int a, .int b => a ≤ b
  | .int a, .real y => ((Decimal.Parts.of y).compareInt a).any Ordering.isLE
  | .real x, .int b => ((Decimal.Parts.of x).compareInt b).any Ordering.isGE
  | .real x, .real y => x ≤ y

/-- Have two amounts the same value? An integer may be the same as a binary64 number. -/
def same (a b : Amount) : Bool := a.le b && b.le a

/-- The different values among some amounts, each as it is met first. -/
def distinct (amounts : List Amount) : List Amount := amounts.eraseDupsBy same

/-- The integer that this is, if it is one. -/
def int? : Amount → Option Int
  | .int n => some n
  | .real _ => none

/-- Is this a binary64 number? -/
def isReal : Amount → Bool
  | .int _ => false
  | .real _ => true

@[simp]
theorem le_int (a b : Int) : le (.int a) (.int b) = decide (a ≤ b) := rfl

@[simp]
theorem add_int (a b : Int) : add (.int a) (.int b) = .ok (.int (a + b)) := rfl

/-- Integers add up to their sum, without failing. -/
theorem sumOf_int {α : Type} (f : α → Except Failure Amount) (g : α → Int) (xs : List α)
    (h : ∀ x ∈ xs, f x = .ok (.int (g x))) :
    sumOf f xs = .ok (.int ((xs.map g).foldl (· + ·) 0)) := by
  have start : ∀ (xs : List α) (a : Int), (∀ x ∈ xs, f x = .ok (.int (g x))) →
      xs.foldlM (fun (total : Amount) x => do total.add (← f x)) (.int a)
        = .ok (.int ((xs.map g).foldl (· + ·) a)) := by
    intro xs
    induction xs with
    | nil => intro a _; rfl
    | cons x xs ih =>
        intro a h
        rw [List.foldlM_cons, h x (List.mem_cons_self ..)]
        exact ih (a + g x) fun y hy => h y (List.mem_cons_of_mem x hy)
  exact start xs 0 h

end Amount

end ScopeScore
