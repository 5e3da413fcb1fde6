import ScopeScore.Metrics
import ScopeScore.Proofs.Analyzer.Conservation

set_option autoImplicit false

/-! # What the metrics measure

Each metric runs an analysis of its own, behind all that went before. None of this shows in its
value, which can be read off the tree: `Node.firstScore` is the score of the scope that is opened
first, and `Node.innerScores` are the scores of the scopes that are inside others.

* `Work.Yields m x` says that `m` has the value `x`, whatever went before.
* **`Metric.yields_totalScore`**, **`Metric.yields_scopeCount`** and **`Metric.yields_greatestScore`**
  give the values of the three metrics.
-/

namespace ScopeScore

open Spot

/-! ## Values that do not depend on the history -/

namespace Work

variable {α β : Type}

/-- The computation does not fail and has this value, whatever went before. -/
def Yields (m : Work α) (x : α) : Prop := ∀ h, ∃ h₁, m.run h = .ok x h₁

theorem yields_pure (x : α) : Yields (pure x) x := fun h => ⟨h, rfl⟩

theorem yields_ofExcept {r : Except Failure α} {x : α} (h : r = .ok x) : Yields (ofExcept r) x := by
  subst h
  exact fun h => ⟨h, rfl⟩

theorem Yields.bind {m : Work α} {k : α → Work β} {x : α} {y : β} (hm : Yields m x)
    (hk : Yields (k x) y) : Yields (m >>= k) y := by
  intro h
  obtain ⟨h₁, hrun⟩ := hm h
  obtain ⟨h₂, hrun'⟩ := hk h₁
  refine ⟨h₂, ?_⟩
  rw [EStateM.run_bind, hrun]
  exact hrun'

theorem yields_mapM {k : α → Work β} {xs : List α} {ys : List β}
    (h : List.Forall₂ (fun x y => Yields (k x) y) xs ys) : Yields (xs.mapM k) ys := by
  induction h with
  | nil => exact yields_pure []
  | cons hx _ ih =>
      rw [List.mapM_cons]
      exact hx.bind (ih.bind (yields_pure _))

end Work

/-! ## Figures of a tree -/

/-- What the categories cost by default. -/
def Category.defaultPrice : Category → Int
  | .branch => 10
  | .branchEmpty => 1
  | .fn => 3
  | .call => 1

theorem Weights.get_default (c : Category) : default.get c = .int c.defaultPrice := by
  cases c <;> rfl

namespace Node

variable {n : Node}

/-- The score of the scope that is opened first; 0 without one. -/
def firstScore (f : Category → Int) (n : Node) : Int :=
  (n.openings.head?.map (n.costInside f)).getD 0

/-- The scores of the scopes that are inside others, in order. -/
def innerScores (f : Category → Int) (n : Node) : List Int :=
  (n.openings.filter fun v => 0 < v.depth).map (n.costInside f)

/-- **The scope that is opened first is in no other**, for those around it are opened before. -/
theorem depth_of_head?_openings {v : Spot} (h : n.openings.head? = some v) : v.depth = 0 := by
  obtain ⟨rest, hrest⟩ := List.head?_eq_some_iff.1 h
  have hv : v ∈ n.openings := List.mem_of_mem_head? h
  refine depth_eq_zero_iff.2 (Option.eq_none_iff_forall_ne_some.2 fun u henc => ?_)
  have hu : u ∈ n.openings := mem_openings_of_enclosing? (mem_walked_of_mem_openings hv) henc
  have hlt : number 0 n.openings u < number 0 n.openings v := number_lt_of_enclosing? hv hu henc
  have hzero : number 0 n.openings v = 0 := by
    rw [number, hrest, List.idxOf_cons_self]
  exact Nat.not_lt_zero _ (hzero ▸ hlt)

end Node

/-- Choosing among the scopes of a run is choosing among the spots where they were opened. -/
theorem Session.Mirrors.filter_number {w : Weights} {outer : List Node} {old : Store} {n : Node}
    {s : Session} (h : Mirrors w outer old n.walked n.openings none s) {p : Scope → Bool}
    {q : Spot → Bool}
    (hpq : ∀ v ∈ n.openings, ∀ own, p (v.scope outer old.size n.openings own) = q v) :
    (n.openings.map (number old.size n.openings)).filter (fun id => (s.scopes.get? id).any p) =
      (n.openings.filter q).map (number old.size n.openings) := by
  rw [List.filter_map]
  refine congrArg _ (List.filter_congr fun v hv => ?_)
  obtain ⟨own, -, hget⟩ := h.made v hv
  rw [Function.comp_apply, hget, Option.any_some, hpq v hv]

/-! ## The metrics -/

namespace Metric

variable (place : Place)

/-- The greatest of some integers. -/
theorem greatest_map_int (xs : List Int) :
    greatest (xs.map Amount.int) = .int (xs.max?.getD 0) := by
  have hfold : ∀ (xs : List Int) (x : Int),
      (xs.map Amount.int).foldl (fun best b => if b.le best then best else b) (.int x) =
        .int (xs.foldl max x) := by
    intro xs
    induction xs with
    | nil => exact fun x => rfl
    | cons y ys ih =>
        intro x
        rw [List.map_cons, List.foldl_cons, List.foldl_cons, ← ih, Amount.le_int]
        by_cases hle : y ≤ x
        · rw [if_pos (decide_eq_true hle), Int.max_eq_left hle]
        · rw [if_neg (by simpa using hle), Int.max_eq_right (Int.le_of_lt (Int.not_le.1 hle))]
  cases xs with
  | nil => rfl
  | cons x xs => exact hfold xs x

/-- What a metric finds: the scopes of the walk, numbered behind those that were there before. -/
theorem run_scopes (h : History) :
    ∃ s : Session,
      Session.Mirrors Weights.default place.above h.scopes place.node.walked place.node.openings
        none s ∧
      (scopes (some place)).run h =
        .ok (place.node.openings.map (number h.scopes.size place.node.openings)) s.history := by
  obtain ⟨s, hmirror, hrun⟩ := ({} : Analyzer).analyze_completes_of_ints place Recorder.unlimited h
    Weights.get_default (Recorder.hasRoom_unlimited _)
  refine ⟨s, hmirror, ?_⟩
  simp only [scopes, EStateM.run, hrun]
  rfl

theorem run_scoreOf {h : History} {id : ScopeId} {x : Amount} (hx : h.scopes.score id = .ok x) :
    (scoreOf id).run h = .ok x h := by
  show (Work.ofExcept (h.scopes.score id)).run h = _
  rw [hx]
  rfl

/-- Looking at scores changes nothing. -/
theorem run_mapM_scoreOf {α : Type} {h : History} {k : α → ScopeId} {g : α → Amount} {xs : List α}
    (hg : ∀ x ∈ xs, h.scopes.score (k x) = .ok (g x)) :
    ((xs.map k).mapM scoreOf).run h = .ok (xs.map g) h := by
  induction xs with
  | nil => rfl
  | cons x xs ih =>
      rw [List.map_cons, List.mapM_cons, EStateM.run_bind, run_scoreOf (hg x List.mem_cons_self)]
      show EStateM.run ((xs.map k).mapM scoreOf >>= fun rest => pure (g x :: rest)) h = _
      rw [EStateM.run_bind, ih fun y hy => hg y (List.mem_cons_of_mem x hy)]
      rfl

/-- **The first metric** is the score of the scope that is opened first. -/
theorem yields_totalScore :
    Work.Yields (totalScore (some place)) (.int (place.node.firstScore Category.defaultPrice)) := by
  intro h
  obtain ⟨s, hmirror, hrun⟩ := run_scopes place h
  refine ⟨s.history, ?_⟩
  rw [totalScore, EStateM.run_bind, hrun, Node.firstScore]
  cases hopenings : place.node.openings with
  | nil => rfl
  | cons v rest =>
      have hv : v ∈ place.node.openings := hopenings ▸ List.mem_cons_self
      have hscore := hmirror.score_number Weights.get_default hv
      rw [hopenings] at hscore
      exact run_scoreOf hscore

/-- **The second metric** is the number of scopes. -/
theorem yields_scopeCount :
    Work.Yields (scopeCount (some place)) (.int place.node.openings.length) := by
  intro h
  obtain ⟨s, -, hrun⟩ := run_scopes place h
  refine ⟨s.history, ?_⟩
  rw [scopeCount, EStateM.run_bind, hrun]
  show EStateM.Result.ok (Amount.int (List.length (List.map _ place.node.openings))) _ = _
  rw [List.length_map]

/-- **The third metric** is the greatest score of a scope that is inside another. -/
theorem yields_greatestScore :
    Work.Yields (greatestScore (some place))
      (.int ((place.node.innerScores Category.defaultPrice).max?.getD 0)) := by
  intro h
  obtain ⟨s, hmirror, hrun⟩ := run_scopes place h
  have hinner : (place.node.openings.map (number h.scopes.size place.node.openings)).filter
      (fun id => (s.history.scopes.get? id).any fun scope => 0 < scope.depth) =
        (place.node.openings.filter fun v => 0 < v.depth).map
          (number h.scopes.size place.node.openings) :=
    hmirror.filter_number fun v _ own => decide_eq_decide.2 Int.natCast_pos
  have hscores : ∀ v ∈ place.node.openings.filter fun v => 0 < v.depth,
      s.history.scopes.score (number h.scopes.size place.node.openings v) =
        .ok (.int (place.node.costInside Category.defaultPrice v)) := fun v hv =>
    hmirror.score_number Weights.get_default (List.mem_filter.1 hv).1
  refine ⟨s.history, ?_⟩
  rw [greatestScore, EStateM.run_bind, hrun]
  show EStateM.run (List.mapM scoreOf (List.filter _ _) >>= fun xs => pure (greatest xs)) _ = _
  rw [EStateM.run_bind, hinner, run_mapM_scoreOf hscores]
  refine congrArg (fun x => EStateM.Result.ok x s.history) ?_
  rw [Node.innerScores, ← greatest_map_int, List.map_map]
  rfl

end Metric

end ScopeScore
