import ScopeScore.Log
import ScopeScore.Scope.Basic

set_option autoImplicit false

/-! # History

What outlasts a single run: all scopes opened so far and all events told so far. `Work` is a
computation that may add to it and may fail; what was added before a failure stays.
-/

namespace ScopeScore

/-- All scopes opened so far and all events told so far. -/
structure History where
  scopes : Store := {}
  log : Log := #[]
deriving Inhabited

namespace History

/-- Tells an event. -/
def tell (h : History) (e : Event) : History := { h with log := h.log.push e }

end History

/-- A computation that may add to the history and may fail. -/
abbrev Work := EStateM Failure History

namespace Work

/-- A result that adds nothing to the history. -/
def ofExcept {α : Type} (result : Except Failure α) : Work α := fun h =>
  match result with
  | .ok a => .ok a h
  | .error e => .error e h

/-- Tells an event. -/
def tell (e : Event) : Work Unit := modify (History.tell · e)

end Work

end ScopeScore
