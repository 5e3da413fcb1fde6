import ScopeScore.Scope.Signature

set_option autoImplicit false

/-! # Records

What is told of a scope: its score, its signature and its location.
-/

namespace ScopeScore

/-- What is told of a scope. -/
structure Record where
  score : Amount
  signature : String
  location : Int
deriving Repr, Inhabited

/-- A name read from a tree, with its fault as a cause of failure. -/
def Node.Read.orFail {α : Type} : Node.Read α → Except Failure α
  | .ok a => .ok a
  | .error fault => .error (.undecodable fault)

namespace Store

/-- The signature of a scope. -/
def signature (s : Store) (id : ScopeId) : Except Failure String :=
  match s.get? id with
  | some scope => scope.signature.orFail
  | none => .ok ""

/-- The record of a scope. The score comes first, so its fault wins over one of the name. -/
def record (s : Store) (id : ScopeId) : Except Failure Record := do
  let score ← s.score id
  let signature ← s.signature id
  return { score, signature, location := ((s.get? id).map Scope.location).getD 0 }

end Store

end ScopeScore
