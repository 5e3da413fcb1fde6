import ScopeScore.Scope.Basic
import ScopeScore.Tree.Name

set_option autoImplicit false

/-! # What a scope is called

The signature of a scope is the first of these that it has: the marker of a program, the name of
the function, the variable that it initialises, the target that it is assigned to. A function with
none of them is anonymous. A name counts even if it is empty.

Only the texts on the way to the answer are decoded, so a text that is no UTF-8 matters only where
it is reached.
-/

namespace ScopeScore.Scope

open Node (Read identifierName? memberPath)

/-- The signature of a program. -/
def programSignature : String := "*"

/-- The signature of a function without a name. -/
def anonymousSignature : String := "anonymous"

/-- The function's own name. -/
def ownName? (s : Scope) : Read (Option String) := identifierName? (s.node.child? "name")

/-- The variable that the function initialises. -/
def variableName? (s : Scope) : Read (Option String) :=
  match s.parent with
  | some p =>
      if p.kind == Kind.variableDeclarator then identifierName? (p.child? "name") else .ok none
  | none => .ok none

/-- The name of an assignment target: an identifier, or the segments of a member path with points
between them. -/
def targetName? (target : Node) : Read (Option String) := do
  match ← identifierName? (some target) with
  | some name => return some name
  | none =>
      if target.kind.isMember then return some (".".intercalate (← target.memberPath))
      else return none

/-- The target that the function is assigned to. -/
def assignedName? (s : Scope) : Read (Option String) :=
  match s.parent with
  | some p =>
      if p.kind == Kind.assignmentExpression then
        match p.child? "left" with
        | some target => targetName? target
        | none => .ok none
      else .ok none
  | none => .ok none

/-- The best name that a function has. -/
def functionName? (s : Scope) : Read (Option String) := do
  if let some name ← s.ownName? then return some name
  if let some name ← s.variableName? then return some name
  s.assignedName?

/-- What a scope is called in a report. -/
def signature (s : Scope) : Read String :=
  if s.isProgram then .ok programSignature
  else do return (← s.functionName?).getD anonymousSignature

/-- A scope on one line: its signature in quotes, its location and its depth. -/
def describe (s : Scope) : Read String := do
  let name ← s.signature
  return s!"Scope({Text.quoted name}, location={s.location}, depth={s.depth})"

end ScopeScore.Scope
