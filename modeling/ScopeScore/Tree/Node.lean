import ScopeScore.Tree.Kind

set_option autoImplicit false

/-! # Concrete trees

`Node` is a tree whose every node carries a `Label`: its kind, whether it is named, the field
under which its parent holds it, the row on which it starts and, where the parser kept it, its
text as octets. Anonymous nodes are keywords and punctuation.

A node is looked into in three ways only: through its named children, through the children that
it holds under a field, and through its label. Those are the accessors below. `Node.size` is the
measure by which every recursion along a tree ends.
-/

namespace ScopeScore

/-- What is written on one node of a tree. -/
structure Label where
  /-- The node's position in its listing; it tells nodes apart and means nothing else. -/
  id : Nat
  kind : Kind
  /-- Keywords and punctuation are not named. -/
  named : Bool
  /-- The field under which the parent holds the node. -/
  field : Option String
  /-- The row on which the node starts, counted from 0. -/
  row : Int
  /-- The source text of the node, as octets that need not be well formed. -/
  text : Option (List UInt8)
deriving DecidableEq, Repr, Inhabited

/-- A concrete tree: a label and the children in source order. -/
inductive Node where
  | node (label : Label) (children : List Node)
deriving Repr, Inhabited

namespace Node

/-! ## Accessors -/

def label : Node → Label
  | .node l _ => l

def children : Node → List Node
  | .node _ cs => cs

def id (n : Node) : Nat := n.label.id

def kind (n : Node) : Kind := n.label.kind

def named (n : Node) : Bool := n.label.named

def text (n : Node) : Option (List UInt8) := n.label.text

/-- The line on which the node starts, counted from 1. -/
def line (n : Node) : Int := n.label.row + 1

/-- The children that are neither keywords nor punctuation. -/
def namedChildren (n : Node) : List Node := n.children.filter Node.named

/-- Is this node held under the field `f` by its parent? -/
def isUnder (f : String) (n : Node) : Bool := n.label.field == some f

/-- The first child held under the field `f`, named or not. -/
def child? (n : Node) (f : String) : Option Node := n.children.find? (isUnder f)

/-- All children held under the field `f`, named or not. -/
def childrenUnder (n : Node) (f : String) : List Node := n.children.filter (isUnder f)

/-- The kind of the `operator` child. Operators are anonymous tokens, so their kind is their
spelling. -/
def operator? (n : Node) : Option Kind := (n.child? "operator").map Node.kind

/-! ## Equality

A tree holds every node once, so its nodes are the same exactly if they are equal as trees. -/

mutual

/-- Decides whether two trees are equal. The labels come first, so that nodes of one listing are
told apart at once. -/
def equal : (a b : Node) → Decidable (a = b)
  | .node l cs, .node m ds =>
      if same : l = m then
        match equalAll cs ds with
        | .isTrue h => .isTrue (by rw [same, h])
        | .isFalse h => .isFalse fun e => h (Node.node.inj e).2
      else .isFalse fun e => same (Node.node.inj e).1

/-- Decides whether two forests are equal. -/
def equalAll : (cs ds : List Node) → Decidable (cs = ds)
  | [], [] => .isTrue rfl
  | [], _ :: _ => .isFalse nofun
  | _ :: _, [] => .isFalse nofun
  | c :: cs, d :: ds =>
      match equal c d with
      | .isTrue h =>
          match equalAll cs ds with
          | .isTrue hs => .isTrue (by rw [h, hs])
          | .isFalse hs => .isFalse fun e => hs (List.cons.inj e).2
      | .isFalse h => .isFalse fun e => h (List.cons.inj e).1

end

/-- A node is compared to itself without looking into it. -/
instance : DecidableEq Node := fun a b => withPtrEqDecEq a b fun _ => equal a b

/-! ## Size -/

mutual

/-- The number of nodes of a tree. -/
def size : Node → Nat
  | .node _ cs => 1 + sizes cs

/-- The number of nodes of a forest. -/
def sizes : List Node → Nat
  | [] => 0
  | c :: cs => c.size + sizes cs

end

theorem size_pos (n : Node) : 0 < n.size := by
  cases n with
  | node l cs => simp only [size]; omega

theorem size_le_sizes {c : Node} {cs : List Node} (h : c ∈ cs) : c.size ≤ sizes cs := by
  induction cs with
  | nil => simp at h
  | cons d ds ih =>
      simp only [sizes]
      rcases List.mem_cons.1 h with rfl | h
      · omega
      · have := ih h
        omega

theorem size_lt_of_mem {n c : Node} (h : c ∈ n.children) : c.size < n.size := by
  cases n with
  | node l cs =>
      have : c.size ≤ sizes cs := size_le_sizes h
      simp only [size]
      omega

/-- A forest from which some trees are dropped is no larger. -/
theorem sizes_filter_le (p : Node → Bool) (cs : List Node) : sizes (cs.filter p) ≤ sizes cs := by
  induction cs with
  | nil => simp
  | cons c cs ih =>
      by_cases h : p c <;> simp only [List.filter_cons, h, if_true, sizes] <;> simp <;> omega

theorem sizes_namedChildren_lt (n : Node) : sizes n.namedChildren < n.size := by
  cases n with
  | node l cs =>
      have := sizes_filter_le Node.named cs
      simp only [namedChildren, children, size]
      omega

theorem size_child?_lt {n c : Node} {f : String} (h : n.child? f = some c) : c.size < n.size :=
  size_lt_of_mem (List.mem_of_find?_eq_some h)

end Node

end ScopeScore
