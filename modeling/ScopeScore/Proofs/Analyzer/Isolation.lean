import ScopeScore.Proofs.Analyzer.Relocation
import Mathlib.Logic.Function.Basic

set_option autoImplicit false

/-! # Runs do not touch each other

Analyzers and recorders are used again and again, and all scopes live in one store. A run that fails
leaves its scopes on the stack of its analyzer, so it is not plain that the next run of the same
analyzer has nothing to do with them.

A `Bench` is any number of analyzers and of recorders under names, with the history that they share;
`Bench.afterAll` is what a sequence of runs makes of it. **`Bench.runs_isolated`** says, of every
sequence that begins with new analyzers, that each run does what it would do alone, that no later run
changes a scope, and that all scopes together are a forest.
-/

namespace ScopeScore

/-- From one store to another no scope is lost or changed. -/
structure Store.Keeps (s s' : Store) : Prop where
  size : s.size ≤ s'.size
  same : ∀ id < s.size, s'.get? id = s.get? id

theorem Store.Keeps.refl (s : Store) : s.Keeps s := ⟨Nat.le_refl _, fun _ _ => rfl⟩

theorem Store.Keeps.trans {s s₁ s₂ : Store} (h : s.Keeps s₁) (h₁ : s₁.Keeps s₂) : s.Keeps s₂ := by
  refine ⟨Nat.le_trans h.size h₁.size, fun id hid => ?_⟩
  rw [h₁.same id (Nat.lt_of_lt_of_le hid h.size), h.same id hid]

namespace Analyzer

variable (a : Analyzer) (tree : Option Place) (r : Recorder) (h : History)

/-- A run that does not fail leaves an empty stack. -/
theorem stack_analyze_of_completed (hdone : (a.analyze tree r h).failure = none) :
    (a.analyze tree r h).analyzer.stack = [] := by
  cases tree with
  | none => rfl
  | some place =>
      rw [analyze_some] at hdone ⊢
      cases hrun : (Step.walkFrom a.weights place).run (Session.starting r h) with
      | error e s =>
          rw [hrun] at hdone
          cases hdone
      | ok u s =>
          have hcalls : place.node.calls = place.node.calls ++ [] := by simp
          rw [Step.walkFrom_eq_makeAll] at hrun
          have hmirror := Step.mirrors_of_run_makeAll rfl hcalls (Node.leads_calls place.node) hrun
          exact hmirror.stack

/-- A run changes no scope that was there before. -/
theorem keeps_analyze : h.scopes.Keeps (a.analyze tree r h).history.scopes := by
  cases tree with
  | none => exact Store.Keeps.refl _
  | some place =>
      have hkeeps := Step.keeps_final_makeAll a.weights place.above place.node.calls
        (Session.starting r h)
      rw [(a.analyze_eq_final place r h).1]
      exact ⟨hkeeps.size, fun id hid => hkeeps.same id hid List.not_mem_nil⟩

theorem weights_analyze : (a.analyze tree r h).analyzer.weights = a.weights := by
  cases tree with
  | none => rfl
  | some place =>
      rw [analyze_some]
      cases (Step.walkFrom a.weights place).run (Session.starting r h) <;> rfl

theorem collector_analyze (ha : a.collector = none) :
    (a.analyze tree r h).analyzer.collector = none := by
  cases tree with
  | none => exact ha
  | some place =>
      rw [analyze_some]
      cases (Step.walkFrom a.weights place).run (Session.starting r h) <;> rfl

end Analyzer

/-! ## Sequences of runs -/

/-- Analyzers and recorders under names, and the history that they share. -/
structure Bench (α ρ : Type) where
  analyzers : α → Analyzer
  recorders : ρ → Recorder
  history : History

/-- A run that is asked for: which analyzer is to score which tree, if any, and which recorder is to
be told. -/
structure Request (α ρ : Type) where
  analyzer : α
  tree : Option Place
  recorder : ρ

namespace Bench

variable {α ρ : Type}

/-- New analyzers with these weights, and no scope yet. -/
def start (weights : α → Weights) (recorders : ρ → Recorder) : Bench α ρ where
  analyzers := fun name => { weights := weights name }
  recorders := recorders
  history := {}

/-- The run that a request leads to. -/
def analysis (b : Bench α ρ) (q : Request α ρ) : Analysis :=
  (b.analyzers q.analyzer).analyze q.tree (b.recorders q.recorder) b.history

variable [DecidableEq α] [DecidableEq ρ]

/-- What the run of a request leaves behind. -/
def after (b : Bench α ρ) (q : Request α ρ) : Bench α ρ where
  analyzers := Function.update b.analyzers q.analyzer (b.analysis q).analyzer
  recorders := Function.update b.recorders q.recorder (b.analysis q).recorder
  history := (b.analysis q).history

/-- What the runs of some requests leave behind, one after the other. -/
def afterAll (b : Bench α ρ) (qs : List (Request α ρ)) : Bench α ρ := qs.foldl after b

/-- What holds of a bench between two runs. -/
structure Settled (weights : α → Weights) (b : Bench α ρ) : Prop where
  weights : ∀ name, (b.analyzers name).weights = weights name
  collector : ∀ name, (b.analyzers name).collector = none
  forest : b.history.scopes.IsForest

variable {weights : α → Weights} {b : Bench α ρ}

omit [DecidableEq α] [DecidableEq ρ] in
theorem settled_start (weights : α → Weights) (recorders : ρ → Recorder) :
    (start weights recorders).Settled weights :=
  ⟨fun _ => rfl, fun _ => rfl, Store.isForest_empty⟩

theorem Settled.after (hb : b.Settled weights) (q : Request α ρ) : (b.after q).Settled weights := by
  refine ⟨?_, ?_, ?_⟩
  · intro name
    by_cases hname : name = q.analyzer
    · subst hname
      show (Function.update b.analyzers q.analyzer (b.analysis q).analyzer q.analyzer).weights = _
      rw [Function.update_self, analysis, Analyzer.weights_analyze, hb.weights]
    · show (Function.update b.analyzers q.analyzer (b.analysis q).analyzer name).weights = _
      rw [Function.update_of_ne hname, hb.weights]
  · intro name
    by_cases hname : name = q.analyzer
    · subst hname
      show (Function.update b.analyzers q.analyzer (b.analysis q).analyzer q.analyzer).collector = _
      rw [Function.update_self]
      exact Analyzer.collector_analyze _ _ _ _ (hb.collector _)
    · show (Function.update b.analyzers q.analyzer (b.analysis q).analyzer name).collector = _
      rw [Function.update_of_ne hname, hb.collector]
  · exact Analyzer.isForest_analyze _ _ _ hb.forest

theorem Settled.afterAll (qs : List (Request α ρ)) :
    ∀ {b : Bench α ρ}, b.Settled weights → (b.afterAll qs).Settled weights := by
  induction qs with
  | nil => exact fun hb => hb
  | cons q qs ih => exact fun hb => ih (hb.after q)

theorem keeps_afterAll (qs : List (Request α ρ)) :
    ∀ b : Bench α ρ, b.history.scopes.Keeps (b.afterAll qs).history.scopes := by
  induction qs with
  | nil => exact fun b => Store.Keeps.refl _
  | cons q qs ih =>
      intro b
      have hrun : b.history.scopes.Keeps (b.after q).history.scopes := Analyzer.keeps_analyze ..
      exact hrun.trans (ih (b.after q))

/-- **Runs do not touch each other.** Take new analyzers with any weights, any recorders, and any
sequence of runs, of which one is in the middle; each may fail. Then

* the run does what a new analyzer with the same weights does with an empty history and a recorder
  with as much room;
* neither this run nor a later one changes a scope that was there before;
* if the run does not fail, the stack is empty and no recorder is in use, and without a tree nothing
  happens;
* after the sequence all scopes are a forest, so each of them has a score unless an addition
  fails. -/
theorem runs_isolated (weights : α → Weights) (recorders : ρ → Recorder)
    (earlier : List (Request α ρ)) (q : Request α ρ) (later : List (Request α ρ)) :
    let before := (start weights recorders).afterAll earlier
    let run := before.analysis q
    let last := (before.after q).afterAll later
    run.Repeats (({ weights := weights q.analyzer } : Analyzer).analyze q.tree
      (before.recorders q.recorder).remaining {}) before.history (before.recorders q.recorder) ∧
    (∀ id < before.history.scopes.size,
      last.history.scopes.get? id = before.history.scopes.get? id) ∧
    (run.failure = none → run.analyzer.stack = [] ∧ run.analyzer.collector = none) ∧
    (q.tree = none → run.history = before.history) ∧
    last.history.scopes.IsForest ∧
    ∀ id scope, last.history.scopes.get? id = some scope →
      last.history.scopes.score id =
        (do scope.own.add (← Amount.sumOf last.history.scopes.score scope.children)) ∧
      last.history.scopes.score id ≠ .error .endlessNesting := by
  intro before run last
  have hbefore : before.Settled weights := (settled_start weights recorders).afterAll earlier
  have hlast : last.Settled weights := (hbefore.after q).afterAll later
  refine ⟨?_, ?_, ?_, ?_, hlast.forest, ?_⟩
  · rw [← hbefore.weights q.analyzer]
    exact Analyzer.analyze_after ..
  · exact (keeps_afterAll (q :: later) before).same
  · intro hdone
    exact ⟨Analyzer.stack_analyze_of_completed _ _ _ _ hdone,
      Analyzer.collector_analyze _ _ _ _ (hbefore.collector _)⟩
  · intro htree
    show ((before.analyzers q.analyzer).analyze q.tree _ _).history = _
    rw [htree]
    rfl
  · intro id scope hget
    have hid : id < last.history.scopes.size := (Array.getElem?_eq_some_iff.1 hget).1
    exact ⟨hlast.forest.score_eq hget, hlast.forest.score_ne_endless hid⟩

end Bench

end ScopeScore
