import ScopeScore.Analyzer.Charge
import ScopeScore.Analyzer.Recorder
import ScopeScore.History
import ScopeScore.Tree.Forest
import ScopeScore.Tree.Walk

set_option autoImplicit false

/-! # Scoring a tree

An analyzer walks a tree once. It keeps a stack of the scopes that enclose the current node,
charges every node to the innermost of them, and opens a scope at every function and program. The
charge comes first, so a function is charged to the scope around it and not to its own.

* `Session` is what changes during one walk; `enter` and `leave` are its two visitors.
* `Analyzer.analyze` runs a walk. A run may fail, because a recorder refuses a scope or an addition
  has no result; what it did until then stays done.
-/

namespace ScopeScore

/-- The state of one walk. -/
structure Session where
  history : History
  /-- The scopes around the current node, the innermost first. -/
  stack : List ScopeId
  recorder : Recorder
deriving Inhabited

namespace Session

/-- The innermost scope. -/
def context? (s : Session) : Option ScopeId := s.stack.head?

/-- Adds an amount to the innermost scope. Outside every scope it is dropped. -/
def charge (s : Session) (a : Amount) : Except Failure Session :=
  match s.context? with
  | some id => do
      let scopes ← s.history.scopes.charge id a
      return { s with history.scopes := scopes }
  | none => .ok s

/-- The node that may give a name to a function met at `v`: the nearest node around it that is no
pair of parentheses. `outer` are the nodes above the start of the walk; parentheses are skipped
past the start, but the start itself has nothing around it. -/
def namingNode? (outer : List Node) (v : Visit) : Option Node :=
  match v.path with
  | [] => none
  | path => (path ++ outer).find? fun n => n.kind != Kind.parenthesizedExpression

/-- Opens a scope at `v` inside the innermost one. -/
def openScope (outer : List Node) (v : Visit) (s : Session) : Session :=
  let id := s.history.scopes.next
  let depth : Int := s.stack.length
  let opened := s.history.scopes.insert
    { node := v.node, parent := namingNode? outer v, depth := depth }
  let scopes :=
    match s.context? with
    | some parent => opened.adopt parent id
    | none => opened
  { s with
    history := { s.history with scopes := scopes }.tell (.scopeEntered v.node.line depth)
    stack := id :: s.stack }

/-- Tells the recorder of the innermost scope. -/
def record (s : Session) : Except Failure Session :=
  match s.context? with
  | some id => do
      let recorder ← s.recorder.add id
      return { s with recorder := recorder }
  | none => .ok s

/-- The node that opened the innermost scope. -/
def contextNode? (s : Session) : Option Node :=
  (s.context?.bind s.history.scopes.get?).map Scope.node

/-- Forgets the innermost scope, if `n` is the node that opened it. -/
def close (n : Node) (s : Session) : Session :=
  if s.contextNode? = some n then { s with stack := s.stack.tail } else s

end Session

/-- A step of a walk. A step that fails keeps what the steps before it did. -/
abbrev Step := EStateM Failure Session

namespace Step

/-- A change of the session that leaves it alone if it fails. -/
def attempt (f : Session → Except Failure Session) : Step Unit := fun s =>
  match f s with
  | .ok s' => .ok () s'
  | .error e => .error e s

/-- What happens when a node is entered: its charges go to the innermost scope, one by one, and if
it is a function or a program a scope is opened and recorded. -/
def enter (w : Weights) (outer : List Node) (v : Visit) : Step Unit := do
  forM (v.node.charge w) fun a => attempt (Session.charge · a)
  if v.node.kind.isScope then
    modify (Session.openScope outer v)
    attempt Session.record

/-- What happens when a node is left: the innermost scope is closed, if this node opened it. -/
def leave (v : Visit) : Step Unit := modify (Session.close v.node)

/-- The whole walk from a place in a tree. -/
def walkFrom (w : Weights) (place : Place) : Step Unit :=
  traverse (enter w place.above) leave place.node

end Step

/-- Weights, and what the last run left behind. -/
structure Analyzer where
  weights : Weights := Weights.default
  /-- The scopes around the current node; after a run that failed, those around the node where it
  failed. -/
  stack : List ScopeId := []
  /-- The recorder in use; none between runs. -/
  collector : Option Recorder := none
deriving Inhabited

/-- What a run leaves behind. -/
structure Analysis where
  analyzer : Analyzer
  recorder : Recorder
  history : History
  /-- Why the run stopped early, if it did. -/
  failure : Option Failure
deriving Inhabited

namespace Analyzer

/-- The innermost scope. -/
def context? (a : Analyzer) : Option ScopeId := a.stack.head?

/-- Scores the tree at `tree`, if there is one, and tells `recorder` of every scope. The stack of
an earlier run is forgotten first. -/
def analyze (a : Analyzer) (tree : Option Place) (recorder : Recorder) (history : History) :
    Analysis :=
  match tree with
  | none => { analyzer := { a with stack := [] }, recorder, history, failure := none }
  | some place =>
      let finish (s : Session) (failure : Option Failure) : Analysis :=
        { analyzer := { a with stack := s.stack, collector := none }
          recorder := s.recorder
          history := s.history
          failure := failure }
      match EStateM.run (Step.walkFrom a.weights place) { history, stack := [], recorder } with
      | .ok _ s => finish s none
      | .error e s => finish s (some e)

end Analyzer

end ScopeScore
