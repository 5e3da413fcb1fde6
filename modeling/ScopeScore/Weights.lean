import ScopeScore.Amount

set_option autoImplicit false

/-! # Weights

Penalties fall into four categories, and `Weights` gives the amount of each. Anyone may override
the default amounts by naming categories (`Weights.override`).
-/

namespace ScopeScore

/-- The categories of penalties. -/
inductive Category where
  /-- A place where control may go two ways. -/
  | branch
  /-- An alternative of a switch with nothing in it. -/
  | branchEmpty
  /-- A function inside a scope. -/
  | fn
  /-- A call. -/
  | call
deriving DecidableEq, Repr

namespace Category

/-- The name under which a category is overridden and shown. -/
def name : Category → String
  | .branch => "branch"
  | .branchEmpty => "branch_empty"
  | .fn => "fn"
  | .call => "call"

/-- All categories, in the order in which they are shown. -/
def all : List Category := [.branch, .branchEmpty, .fn, .call]

/-- The category of this name. -/
def ofName? (name : String) : Option Category := all.find? fun c => c.name == name

end Category

/-- The amount of each category. -/
structure Weights where
  branch : Amount := .int 10
  branchEmpty : Amount := .int 1
  fn : Amount := .int 3
  call : Amount := .int 1
deriving Repr, Inhabited

namespace Weights

/-- The weights that hold unless they are overridden. -/
def default : Weights := {}

/-- The amount of a category. -/
def get (w : Weights) : Category → Amount
  | .branch => w.branch
  | .branchEmpty => w.branchEmpty
  | .fn => w.fn
  | .call => w.call

/-- The weights with another amount for one category. -/
def set (w : Weights) (c : Category) (a : Amount) : Weights :=
  match c with
  | .branch => { w with branch := a }
  | .branchEmpty => { w with branchEmpty := a }
  | .fn => { w with fn := a }
  | .call => { w with call := a }

@[simp]
theorem get_set (w : Weights) (c d : Category) (a : Amount) :
    (w.set c a).get d = if d = c then a else w.get d := by
  cases c <;> cases d <;> rfl

/-- Applies overrides from left to right, so the last one for a category holds. The first name that
is no category is a fault. -/
def override (w : Weights) (changes : List (String × Amount)) : Except Failure Weights :=
  changes.foldlM (fun w change =>
    match Category.ofName? change.1 with
    | some c => .ok (w.set c change.2)
    | none => .error (.unknownCategory change.1)) w

/-- The default weights with these overrides. -/
def ofOverrides (changes : List (String × Amount)) : Except Failure Weights :=
  default.override changes

/-- Every category with its amount, in the order in which they are shown. -/
def toList (w : Weights) : List (Category × Amount) := Category.all.map fun c => (c, w.get c)

end Weights

end ScopeScore
