import ScopeScore.Analyzer.Basic

set_option autoImplicit false

/-! # Metrics of a whole program

A metric makes one number of a tree. Metrics are kept in a registry under their names, in the order
in which they were entered; a name is given once only. Each metric runs an analysis of its own,
with the default weights.
-/

namespace ScopeScore

/-- A number made of a tree. What the analysis tells on the way goes to the history. -/
abbrev Metric := Option Place → Work Amount

namespace Metric

/-- The scopes that the default analyzer finds. -/
def scopes (tree : Option Place) : Work (List ScopeId) := fun h =>
  let run := ({} : Analyzer).analyze tree Recorder.unlimited h
  match run.failure with
  | none => .ok run.recorder.records run.history
  | some e => .error e run.history

/-- The score of a scope. -/
def scoreOf (id : ScopeId) : Work Amount := do Work.ofExcept ((← get).scopes.score id)

/-- The score of the first scope; 0 without one. -/
def totalScore : Metric := fun tree => do
  match ← scopes tree with
  | id :: _ => scoreOf id
  | [] => return .zero

/-- How many scopes there are. -/
def scopeCount : Metric := fun tree => do return .int (← scopes tree).length

/-- The greatest amount, the first of equals; 0 if there is none. -/
def greatest : List Amount → Amount
  | [] => .zero
  | a :: rest => rest.foldl (fun best b => if b.le best then best else b) a

/-- The greatest score of a scope that is inside another; 0 if there is none. -/
def greatestScore : Metric := fun tree => do
  let ids ← scopes tree
  let h ← get
  let inner := ids.filter fun id => (h.scopes.get? id).any fun scope => 0 < scope.depth
  return greatest (← inner.mapM scoreOf)

end Metric

/-- Metrics by name. -/
structure Registry where
  metrics : List (String × Metric)

namespace Registry

/-- The metrics that every program is measured by. -/
def standard : Registry where
  metrics :=
    [("Hell Score", Metric.totalScore),
      ("Hell Scopes", Metric.scopeCount),
      ("Hell Max Scope Score", Metric.greatestScore)]

/-- The names, in the order in which they were entered. -/
def names (r : Registry) : List String := r.metrics.map Prod.fst

/-- Enters a metric under a name that is still free. -/
def register (r : Registry) (name : String) (m : Metric) : Except Failure Registry :=
  if r.names.contains name then .error (.metricTaken name)
  else .ok { metrics := r.metrics ++ [(name, m)] }

/-- The metric of this name. -/
def find (r : Registry) (name : String) : Except Failure Metric :=
  match r.metrics.lookup name with
  | some m => .ok m
  | none => .error (.metricUnknown name)

/-- Measures by the metric of this name. -/
def measure (r : Registry) (name : String) (tree : Option Place) : Work Amount := do
  (← Work.ofExcept (r.find name)) tree

/-- Measures by every metric, in order. -/
def computeAll (r : Registry) (tree : Option Place) : Work (List (String × Amount)) :=
  r.metrics.mapM fun entry => do return (entry.1, ← entry.2 tree)

end Registry

end ScopeScore
