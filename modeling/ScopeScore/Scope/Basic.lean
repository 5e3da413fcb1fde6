import ScopeScore.Amount
import ScopeScore.Tree.Node

set_option autoImplicit false

/-! # Scopes

A scope is the program or a function, with the penalties that fall into it and not into a function
inside it. All scopes ever opened live in a `Store` under their number, and the children of a scope
are numbers, so a scope may be looked at from several places and still change.

The score of a scope is its own penalty plus the scores of its children (`Store.score`), summed
from left to right each time it is asked for. A child is looked at only after those before it were
added up. Scopes may be nested to any depth: there is no limit to the recursion, and only a scope
that contains itself has no score.
-/

namespace ScopeScore

/-- The number of a scope in its store. -/
abbrev ScopeId := Nat

/-- A function or the program, with what falls into it. -/
structure Scope where
  /-- The node that opened the scope. -/
  node : Node
  /-- The node around it that may give it a name. -/
  parent : Option Node
  /-- How many scopes enclose it. -/
  depth : Int
  /-- The penalties that fall into the scope itself. -/
  own : Amount := .zero
  /-- The scopes opened directly inside, in order. -/
  children : List ScopeId := []
deriving Repr, Inhabited

namespace Scope

/-- Is this the scope of a whole program? -/
def isProgram (s : Scope) : Bool := s.node.kind == Kind.program

/-- The line on which the function starts; 0 for the program. -/
def location (s : Scope) : Int := if s.isProgram then 0 else s.node.line

end Scope

/-- All scopes ever opened, by number. -/
structure Store where
  scopes : Array Scope := #[]
deriving Inhabited

namespace Store

def size (s : Store) : Nat := s.scopes.size

/-- The scope of this number. -/
def get? (s : Store) (id : ScopeId) : Option Scope := s.scopes[id]?

/-- The number that the next scope will have. -/
def next (s : Store) : ScopeId := s.size

/-- Adds a scope under the next number. -/
def insert (s : Store) (scope : Scope) : Store := { scopes := s.scopes.push scope }

/-- Changes one scope and leaves the others alone. -/
def modify (s : Store) (id : ScopeId) (f : Scope → Scope) : Store :=
  { scopes := s.scopes.modify id f }

/-- Makes `child` the last child of `parent`. -/
def adopt (s : Store) (parent child : ScopeId) : Store :=
  s.modify parent fun scope => { scope with children := scope.children ++ [child] }

/-- Adds a penalty to a scope. If the addition fails, nothing changes. -/
def charge (s : Store) (id : ScopeId) (a : Amount) : Except Failure Store :=
  match s.get? id with
  | some scope => do
      let own ← scope.own.add a
      return s.modify id fun scope => { scope with own := own }
  | none => .ok s

/-! ## Scores -/

/-- The score of a scope nested at most `depth` levels deep. -/
def scoreWithin (s : Store) : Nat → ScopeId → Except Failure Amount
  | 0, _ => .error .endlessNesting
  | depth + 1, id =>
      match s.get? id with
      | some scope => do
          let inner ← Amount.sumOf (s.scoreWithin depth) scope.children
          scope.own.add inner
      | none => .ok .zero

/-- A scope's own penalty plus the scores of its children. No nesting is deeper than the store has
scopes, unless a scope contains itself. -/
def score (s : Store) (id : ScopeId) : Except Failure Amount := s.scoreWithin s.size id

/-! ## What the operations do to the scopes -/

@[simp]
theorem size_insert (s : Store) (scope : Scope) : (s.insert scope).size = s.size + 1 := by
  simp [insert, size]

@[simp]
theorem size_modify (s : Store) (id : ScopeId) (f : Scope → Scope) :
    (s.modify id f).size = s.size := by
  simp [modify, size]

theorem get?_insert (s : Store) (scope : Scope) (id : ScopeId) :
    (s.insert scope).get? id = if id = s.next then some scope else s.get? id := by
  simp only [insert, get?, next, size, Array.getElem?_push]
  rfl

theorem get?_modify (s : Store) (id other : ScopeId) (f : Scope → Scope) :
    (s.modify id f).get? other = if other = id then (s.get? id).map f else s.get? other := by
  simp only [modify, get?, Array.getElem?_modify]
  by_cases h : other = id
  · subst h; simp
  · simp [h, Ne.symm h]

end Store

end ScopeScore
