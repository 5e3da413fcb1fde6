import ScopeScore.Tree.Node

set_option autoImplicit false

/-! # Forests read from listings

A parser hands a tree over as a flat listing in which every node names its parent by position, and
a parent stands before its children. `Forest.ofEntries` builds the trees of such a listing and
keeps, for every position, the node there and its parent, so that a tree can be entered at any of
its nodes: `Forest.place?` gives the node together with the nodes above it.
-/

namespace ScopeScore

/-- One line of a listing. -/
structure Entry where
  /-- The position of the parent, smaller than the node's own. -/
  parent : Option Nat
  kind : Kind
  named : Bool
  field : Option String
  row : Int
  text : Option (List UInt8)
deriving DecidableEq, Repr, Inhabited

/-- The label of the entry that stands at position `i`. -/
def Entry.label (e : Entry) (i : Nat) : Label :=
  { id := i, kind := e.kind, named := e.named, field := e.field, row := e.row, text := e.text }

/-- A node inside a tree, with the nodes above it, nearest first. -/
structure Place where
  node : Node
  above : List Node
deriving Repr, Inhabited

/-- The node at the top of its tree. -/
def Place.top (n : Node) : Place := { node := n, above := [] }

/-- All trees of a listing, by position. -/
structure Forest where
  nodes : Array Node
  parents : Array (Option Nat)
deriving Inhabited

namespace Forest

/-- Adds the entry at position `i` in front of the nodes after it. `pending` holds, for every
position, those of its children that stand after `i`. -/
def prepend (i : Nat) (e : Entry) (acc : List Node × Array (List Node)) :
    List Node × Array (List Node) :=
  let n := Node.node (e.label i) (acc.2.getD i [])
  (n :: acc.1,
    match e.parent with
    | some p => acc.2.modify p (n :: ·)
    | none => acc.2)

/-- Builds the trees of a listing from its last entry to its first, so that every node finds its
children complete and in order. -/
def ofEntries (entries : List Entry) : Forest :=
  let built := entries.zipIdx.foldr (fun e acc => prepend e.2 e.1 acc)
    ([], Array.replicate entries.length [])
  { nodes := built.1.toArray, parents := (entries.map Entry.parent).toArray }

/-- The node at position `i`. -/
def node? (f : Forest) (i : Nat) : Option Node := f.nodes[i]?

/-- The nodes above position `i`, nearest first. -/
def above (f : Forest) (i : Nat) : List Node :=
  match f.parents[i]? with
  | some (some p) =>
      if p < i then (f.node? p).toList ++ f.above p else []
  | _ => []
termination_by i

/-- The node at position `i` with the nodes above it. -/
def place? (f : Forest) (i : Nat) : Option Place :=
  (f.node? i).map fun n => { node := n, above := f.above i }

end Forest

end ScopeScore
