import ScopeScore.Scope.Basic

set_option autoImplicit false

/-! # Recorders

A recorder is told of every scope when it is opened and keeps them in this order. It may have a
limit, and refuses a scope when it already holds that many. The cause that it gives then is its own.
-/

namespace ScopeScore

/-- The scopes recorded, and how many there may be. -/
structure Recorder where
  limit : Option Nat := none
  /-- The cause for which it refuses a scope. -/
  refusal : Failure := .recorderFull
  records : List ScopeId := []
deriving DecidableEq, Repr, Inhabited

namespace Recorder

/-- A recorder that takes any number of scopes and has none yet. -/
def unlimited : Recorder := {}

/-- Does it hold as many scopes as it may? -/
def isFull (r : Recorder) : Bool := r.limit.any (· ≤ r.records.length)

/-- Records one more scope. -/
def add (r : Recorder) (id : ScopeId) : Except Failure Recorder :=
  if r.isFull then .error r.refusal else .ok { r with records := r.records ++ [id] }

end Recorder

end ScopeScore
