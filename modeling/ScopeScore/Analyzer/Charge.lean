import ScopeScore.Weights
import ScopeScore.Tree.Node

set_option autoImplicit false

/-! # What a node costs

`Node.penalties` lists the categories that a node is charged for, from its kind and its fields
alone; `Node.charge` is the list of their amounts. Everything else about scoring is where these
charges go.
-/

namespace ScopeScore.Node

/-- The categories that a node is charged for.

A function is charged as such, a call as a call. An `if` is one branch, or two if it has an
alternative. A case is a branch if anything stands in it. Of the binary operators only `||`
branches, and of the loops over an object only the one over its keys; the loop over its values has
the same kind and another operator. -/
def penalties (n : Node) : List Category :=
  if n.kind.isFunction then [.fn]
  else if n.kind == Kind.callExpression then [.call]
  else if n.kind == Kind.ifStatement then
    if (n.child? "alternative").isSome then [.branch, .branch] else [.branch]
  else if n.kind.isCase then
    if (n.childrenUnder "body").isEmpty then [.branchEmpty] else [.branch]
  else if n.kind == Kind.binaryExpression then
    if n.operator? == some "||" then [.branch] else []
  else if n.kind == Kind.forInStatement then
    if n.operator? == some "in" then [.branch] else []
  else if n.kind.isBranch then [.branch]
  else []

/-- The amounts that a node is charged, in order. -/
def charge (w : Weights) (n : Node) : List Amount := n.penalties.map w.get

end ScopeScore.Node
