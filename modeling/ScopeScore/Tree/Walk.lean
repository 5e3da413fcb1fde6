import ScopeScore.Tree.Node

set_option autoImplicit false

/-! # Walking a tree

A walk enters a node, walks its named children in order and leaves it again. The visitors may keep
a state and may fail: they run in any monad `m`.

* `walk` keeps the pending work on a list of its own, so a deep tree needs no deep recursion. This
  is the walk that the program runs.
* `visit` is the same walk by recursion on the tree. It says what the walk means.

**`traverse_eq_visit`**: both issue the same calls in the same order, whatever the visitors do.
-/

namespace ScopeScore

/-- A node as a walk meets it: with the nodes through which the walk reached it, nearest first. -/
structure Visit where
  node : Node
  path : List Node
deriving Repr, Inhabited

namespace Visit

/-- The visit with which a walk begins. It has no parent even if the node has one in its tree. -/
def start (n : Node) : Visit := { node := n, path := [] }

/-- The node from which the walk came. -/
def parent? (v : Visit) : Option Node := v.path.head?

/-- The visits of the named children. -/
def below (v : Visit) : List Visit :=
  v.node.namedChildren.map fun c => { node := c, path := v.node :: v.path }

end Visit

/-- A piece of pending work. -/
inductive Job where
  | enter (v : Visit)
  | leave (v : Visit)
deriving Repr, Inhabited

namespace Job

/-- The number of calls that a job may still cause, bounded from above: a node is entered once
and left once, and so is every node under it. -/
def cost : Job → Nat
  | .enter v => 2 * v.node.size
  | .leave _ => 1

/-- The cost of a list of jobs. -/
def costs (jobs : List Job) : Nat := jobs.foldr (fun t total => t.cost + total) 0

theorem costs_append (ts us : List Job) : costs (ts ++ us) = costs ts + costs us := by
  induction ts with
  | nil => simp [costs]
  | cons t ts ih =>
      simp only [costs, List.cons_append, List.foldr_cons] at ih ⊢
      omega

theorem costs_enter_children (cs : List Node) (path : List Node) :
    costs (cs.map fun c => Job.enter { node := c, path := path }) = 2 * Node.sizes cs := by
  induction cs with
  | nil => rfl
  | cons c cs ih =>
      simp only [costs, List.map_cons, List.foldr_cons, cost, Node.sizes] at ih ⊢
      omega

/-- Entering a node replaces one job by cheaper ones. -/
theorem costs_expand_lt (v : Visit) (rest : List Job) :
    costs (v.below.map Job.enter ++ Job.leave v :: rest) < costs (Job.enter v :: rest) := by
  have below : costs (v.below.map Job.enter) = 2 * Node.sizes v.node.namedChildren := by
    simpa [Visit.below, Function.comp_def] using
      costs_enter_children v.node.namedChildren (v.node :: v.path)
  have small := Node.sizes_namedChildren_lt v.node
  rw [costs_append, below]
  simp only [costs, List.foldr_cons, cost]
  omega

theorem costs_tail_lt (t : Job) (rest : List Job) : costs rest < costs (t :: rest) := by
  have : 0 < t.cost := by
    cases t with
    | enter v => have := v.node.size_pos; simp only [cost]; omega
    | leave v => simp [cost]
  simp only [costs, List.foldr_cons]
  omega

end Job

section Walk

variable {m : Type → Type} [Monad m] (enter leave : Visit → m Unit)

/-- Works off a list of jobs: entering a node puts its named children and then its own leaving in
front of what is pending. -/
@[specialize]
def walk : List Job → m Unit
  | [] => pure ()
  | .leave v :: rest => do
      leave v
      walk rest
  | .enter v :: rest => do
      enter v
      walk (v.below.map .enter ++ .leave v :: rest)
termination_by jobs => Job.costs jobs
decreasing_by
  · exact Job.costs_tail_lt _ _
  · exact Job.costs_expand_lt _ _

/-- Walks everything under `n`. The start node is entered even if it is not named. -/
@[specialize]
def traverse (n : Node) : m Unit := walk enter leave [.enter (Visit.start n)]

mutual

/-- Enters a node, visits its named children in order and leaves it. -/
def visit (path : List Node) : Node → m Unit
  | .node l cs => do
      enter { node := .node l cs, path := path }
      visitAll (.node l cs :: path) cs
      leave { node := .node l cs, path := path }

/-- Visits the named trees of a forest in order. -/
def visitAll (path : List Node) : List Node → m Unit
  | [] => pure ()
  | c :: cs => do
      if c.named then visit path c
      visitAll path cs

end

/-! ## The two walks agree -/

/-- What a job stands for: the whole visit of a node, or the call that leaves it. -/
def Job.perform : Job → m Unit
  | .enter v => visit enter leave v.path v.node
  | .leave v => leave v

theorem visit_eq (path : List Node) (n : Node) :
    visit enter leave path n = (do
      enter { node := n, path := path }
      visitAll enter leave (n :: path) n.children
      leave { node := n, path := path }) := by
  cases n with
  | node l cs => rw [visit, Node.children]

/-- Visiting a forest is visiting its named trees one after the other. -/
theorem visitAll_eq_forM (path : List Node) (cs : List Node) :
    visitAll enter leave path cs = forM (cs.filter Node.named) (visit enter leave path) := by
  induction cs with
  | nil => simp [visitAll]
  | cons c cs ih =>
      by_cases h : c.named <;> simp [visitAll, h, ih]

theorem forM_perform_below (v : Visit) :
    forM (v.below.map Job.enter) (Job.perform enter leave) =
      visitAll enter leave (v.node :: v.path) v.node.children := by
  rw [visitAll_eq_forM, Visit.below, Node.namedChildren]
  generalize v.node.children.filter Node.named = cs
  induction cs with
  | nil => simp
  | cons c cs ih => simp only [List.map_cons, List.forM_cons, ih, Job.perform]

/-- Working off a list of jobs performs each of them in turn. -/
theorem walk_eq_forM [LawfulMonad m] (jobs : List Job) :
    walk enter leave jobs = forM jobs (Job.perform enter leave) := by
  fun_induction walk enter leave jobs with
  | case1 => simp
  | case2 v rest ih => simp only [ih, List.forM_cons, Job.perform]
  | case3 v rest ih =>
      rw [ih, List.forM_append, List.forM_cons, List.forM_cons, forM_perform_below]
      simp only [Job.perform, visit_eq, bind_assoc]

/-- **The walk that keeps its own pending list is the recursive one**, for visitors with any state
and any way to fail. -/
theorem traverse_eq_visit [LawfulMonad m] (n : Node) :
    traverse enter leave n = visit enter leave [] n := by
  simp [traverse, walk_eq_forM, Job.perform, Visit.start]

end Walk

end ScopeScore
