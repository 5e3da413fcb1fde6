import ScopeScore.Tree.Node
import ScopeScore.Text.Utf8

set_option autoImplicit false

/-! # Names read from a tree

Names of variables, properties and assignment targets as they stand in the source. Reading one
decodes the text of a node, so it fails where that text is no UTF-8; a node without text has the
empty name. Nothing is decoded that is not asked for.

* `identifierName?`: the text of an identifier of any sort;
* `literalValue?`: the digits of a number, or what a string holds as plain fragments;
* `memberPath`: the segments of `a.b['c'][0]`, the base first.

A chain of members may have any length: there is no limit to the recursion along it.
-/

namespace ScopeScore.Node

/-- A value read from a tree, or the fault in the text that it was read from. -/
abbrev Read (α : Type) := Except Utf8.Invalid α

/-- The text of a node; a node without text reads as empty. -/
def readText (n : Node) : Read String :=
  match n.text with
  | some octets => Utf8.decode octets
  | none => .ok ""

/-- The name that an identifier spells. Any other node, or none, has no name. -/
def identifierName? : Option Node → Read (Option String)
  | some n => if n.kind.isIdentifier then some <$> n.readText else .ok none
  | none => .ok none

/-- The plain fragments of a string literal, in order. -/
def stringFragments (n : Node) : List Node :=
  n.namedChildren.filter fun c => c.kind == Kind.stringFragment

/-- The value of a number as it is written, or the fragments of a string joined, without quotes. -/
def literalValue? : Option Node → Read (Option String)
  | some n =>
      if n.kind == Kind.number then some <$> n.readText
      else if n.kind == Kind.string then do
        let parts ← n.stringFragments.mapM readText
        return some (String.join parts)
      else .ok none
  | none => .ok none

/-- What stands for a part of a path that has no name. -/
def unknownSegment : String := "?"

/-- The object at the start of a member path. -/
def baseName (n : Option Node) : Read String := do
  if n.any fun n => n.kind == Kind.thisExpression then
    return "this"
  return (← identifierName? n).getD unknownSegment

/-- The node that says which part of an object a member node selects. -/
def selector? (n : Node) : Option Node :=
  n.child? (if n.kind == Kind.memberExpression then "property" else "index")

/-- The name of the part that a member node selects. -/
def segmentName (n : Node) : Read String := do
  match ← identifierName? n.selector? with
  | some name => return name
  | none => return (← literalValue? n.selector?).getD unknownSegment

/-- The path of a member node: that of its object, or the object's name, followed by the part
selected. -/
def memberPath (n : Node) : Read (List String) := do
  let object ←
    match _h : n.child? "object" with
    | some o => if o.kind.isMember then o.memberPath else List.singleton <$> baseName (some o)
    | none => List.singleton <$> baseName none
  let segment ← n.segmentName
  return object ++ [segment]
termination_by n.size
decreasing_by exact size_child?_lt _h

end ScopeScore.Node
