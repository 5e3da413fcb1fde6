import ScopeScore.Proofs.Analyzer.Forest
import ScopeScore.Proofs.Analyzer.Refusal
import ScopeScore.Proofs.Scope.Names

set_option autoImplicit false

/-! # Where the scopes of a run come from

A run opens its scopes at nodes of the tree that it walks, and the node that may name one is a node
of that tree too. This is so of every run, with any weights, any recorder and any scopes of earlier
runs, and whether the run comes to its end or not: `Session.Grown` says it of the sessions of a walk,
every call keeps it so, and **`Analyzer.exists_made`** says it of the records of a run.
-/

namespace ScopeScore

open Spot Call

/-- Are the node of a scope and the node that may name it nodes of this tree? -/
def Scope.IsOf (tree : Node) (s : Scope) : Prop :=
  s.node ∈ tree.nodes ∧ ∀ p ∈ s.parent, p ∈ tree.nodes

/-- Is this a place in the tree, with nodes of the tree above it? -/
def Place.IsIn (tree : Node) (place : Place) : Prop :=
  place.node ∈ tree.nodes ∧ ∀ p ∈ place.above, p ∈ tree.nodes

/-- The scope that is opened at a spot of a walk is one of the tree. -/
theorem Place.IsIn.isOf_fresh {tree : Node} {place : Place} (h : place.IsIn tree) {v : Spot}
    (hv : v ∈ place.node.walked) (s : Session) : (s.fresh place.above v.visit).IsOf tree := by
  constructor
  · exact Node.mem_nodes_trans (Node.node_mem_nodes_of_mem_walked hv) tree h.1
  · intro p hp
    rcases Node.mem_nodes_of_namingNode? hv hp with hnode | habove
    · exact Node.mem_nodes_trans hnode tree h.1
    · exact h.2 p habove

/-! ## Sessions -/

namespace Session

/-- The scopes opened since the session was `old` are of the tree, and the recorder was told of none
but these. -/
structure Grown (tree : Node) (old s : Session) : Prop where
  size : old.scopes.size ≤ s.scopes.size
  /-- The scopes on the stack are there. -/
  stack : ∀ id ∈ s.stack, id < s.scopes.size
  opened : ∀ {id : ScopeId} {scope : Scope}, old.scopes.size ≤ id →
    s.scopes.get? id = some scope → scope.IsOf tree
  recorded : ∃ made, s.recorder.records = old.recorder.records ++ made ∧
    ∀ id ∈ made, old.scopes.size ≤ id ∧ id < s.scopes.size

namespace Grown

variable {tree : Node} {old s : Session}

theorem start (hstack : s.stack = []) : Grown tree s s where
  size := Nat.le_refl _
  stack := by simp [hstack]
  opened := by
    intro id scope hid hget
    rw [Store.get?_eq_none_of_le hid] at hget
    cases hget
  recorded := ⟨[], by simp⟩

theorem context_lt (h : Grown tree old s) {id : ScopeId} (hc : s.context? = some id) :
    id < s.scopes.size := h.stack id (List.mem_of_head? hc)

/-- A penalty changes neither nodes nor numbers. -/
theorem setOwn (h : Grown tree old s) (id : ScopeId) (own : Amount) :
    Grown tree old (s.setOwn id own) where
  size := by
    rw [size_scopes_setOwn]
    exact h.size
  stack := by
    rw [size_scopes_setOwn]
    exact h.stack
  opened := by
    intro i scope hi hget
    rw [get?_setOwn] at hget
    by_cases hid : i = id
    · rw [if_pos hid] at hget
      obtain ⟨before, hbefore, rfl⟩ := Option.map_eq_some_iff.1 hget
      have hof : before.IsOf tree := h.opened (hid ▸ hi) hbefore
      exact hof
    · rw [if_neg hid] at hget
      exact h.opened hi hget
  recorded := by
    rw [size_scopes_setOwn]
    exact h.recorded

/-- A scope that is opened is the only one whose node is new. -/
theorem openScope (h : Grown tree old s) {outer : List Node} {v : Visit}
    (hfresh : (s.fresh outer v).IsOf tree) : Grown tree old (s.openScope outer v) where
  size := by
    rw [size_scopes_openScope]
    exact Nat.le_succ_of_le h.size
  stack := by
    rw [size_scopes_openScope, stack_openScope]
    intro id hid
    rcases List.mem_cons.1 hid with rfl | hid
    · exact Nat.lt_succ_self _
    · exact Nat.lt_succ_of_lt (h.stack id hid)
  opened := by
    intro id scope hid hget
    rcases Nat.lt_trichotomy id s.scopes.size with hlt | heq | hgt
    · rw [get?_openScope_of_lt outer v hlt] at hget
      split at hget
      · obtain ⟨before, hbefore, rfl⟩ := Option.map_eq_some_iff.1 hget
        have hof : before.IsOf tree := h.opened hid hbefore
        exact hof
      · exact h.opened hid hget
    · have hnext : id = s.scopes.next := heq
      rw [hnext, get?_openScope_next outer v fun p hp => h.context_lt hp] at hget
      obtain rfl := Option.some.inj hget
      exact hfresh
    · rw [Store.get?_eq_none_of_le (by rw [size_scopes_openScope]; exact hgt)] at hget
      cases hget
  recorded := by
    obtain ⟨made, hmade, hall⟩ := h.recorded
    refine ⟨made, hmade, fun id hid => ?_⟩
    rw [size_scopes_openScope]
    exact ⟨(hall id hid).1, Nat.lt_succ_of_lt (hall id hid).2⟩

/-- The recorder may be told of the newest scope. -/
theorem withRecorder (h : Grown tree old s) {id : ScopeId} (hold : old.scopes.size ≤ id)
    (hid : id < s.scopes.size) {r : Recorder} (hr : s.recorder.add id = .ok r) :
    Grown tree old { s with recorder := r } := by
  obtain ⟨made, hmade, hall⟩ := h.recorded
  obtain ⟨-, rfl⟩ := Recorder.add_eq_ok_iff.1 hr
  refine ⟨h.size, h.stack, h.opened, made ++ [id], ?_, ?_⟩
  · show s.recorder.records ++ [id] = _
    rw [hmade, List.append_assoc]
  · intro i hi
    rcases List.mem_append.1 hi with hi | hi
    · exact hall i hi
    · obtain rfl := List.mem_singleton.1 hi
      exact ⟨hold, hid⟩

theorem close (h : Grown tree old s) (n : Node) : Grown tree old (s.close n) := by
  unfold Session.close
  split
  · exact ⟨h.size, fun id hid => h.stack id (List.mem_of_mem_tail hid), h.opened, h.recorded⟩
  · exact h

variable {place : Place}

/-- One call of a walk keeps it so, whether it fails or not. -/
theorem perform (h : Grown tree old s) (hplace : place.IsIn tree) (w : Weights) {c : Call}
    (hc : ∀ t, c = .enter t → t ∈ place.node.walked) :
    Grown tree old (Step.final (c.perform (Step.enter w place.above) Step.leave) s) := by
  cases c with
  | leave t => exact h.close t.node
  | enter t =>
      set s₁ := Step.final (Step.chargeAll (t.visit.node.charge w)) s with hs₁
      have hcharge : Grown tree old s₁ := by
        rcases Step.final_chargeAll (t.visit.node.charge w) s with heq | ⟨id, own, -, heq⟩
        · rw [hs₁, heq]
          exact h
        · rw [hs₁, heq]
          exact h.setOwn id own
      have hopen : Grown tree old (s₁.openScope place.above t.visit) :=
        hcharge.openScope (hplace.isOf_fresh (hc t rfl) s₁)
      show Grown tree old (Step.final (Step.enter w place.above t.visit) s)
      rcases Step.final_enter_cases w place.above t.visit s with heq | ⟨r, heq, hr⟩
      · rw [heq]
        exact hcharge
      · rw [heq]
        rcases hr with rfl | hr
        · exact hopen
        · refine hopen.withRecorder hcharge.size ?_ hr
          rw [size_scopes_openScope]
          exact Nat.lt_succ_self _

/-- So do any calls, up to the end or to the first that fails. -/
theorem makeAll (hplace : place.IsIn tree) (w : Weights) (cs : List Call)
    (hcs : ∀ t, .enter t ∈ cs → t ∈ place.node.walked) :
    ∀ {s : Session}, Grown tree old s →
      Grown tree old (Step.final (Step.makeAll w place.above cs) s) := by
  induction cs with
  | nil => exact fun h => h
  | cons c cs ih =>
      intro s h
      have hfirst := h.perform hplace w fun t ht => hcs t (ht ▸ List.mem_cons_self)
      rcases Step.final_makeAll_cons w place.above c cs s with heq | heq
      · rw [heq]
        exact hfirst
      · rw [heq]
        exact ih (fun t ht => hcs t (List.mem_cons_of_mem c ht)) hfirst

end Grown

end Session

/-! ## Runs -/

namespace Analyzer

theorem recorder_analyze (a : Analyzer) (place : Place) (r : Recorder) (h : History) :
    (a.analyze (some place) r h).recorder =
      (Step.final (Step.makeAll a.weights place.above place.node.calls)
        (Session.starting r h)).recorder := by
  rw [← Step.walkFrom_eq_makeAll, analyze_some, Step.final]
  cases (Step.walkFrom a.weights place).run (Session.starting r h) <;> rfl

/-- **The records of a run are of its tree.** A run adds some records to those that the recorder had,
and each of them is a scope of the tree, whether the run comes to its end or not. -/
theorem exists_made {tree : Node} {place : Place} (hplace : place.IsIn tree) (a : Analyzer)
    (r : Recorder) (h : History) :
    ∃ made, (a.analyze (some place) r h).recorder.records = r.records ++ made ∧
      ∀ id ∈ made, ∃ scope, (a.analyze (some place) r h).history.scopes.get? id = some scope ∧
        scope.IsOf tree := by
  have hentered : ∀ t, Call.enter t ∈ place.node.calls → t ∈ place.node.walked := by
    intro t ht
    rw [← Node.entered_calls]
    exact List.mem_filterMap.2 ⟨.enter t, ht, rfl⟩
  have hgrown := Session.Grown.makeAll hplace a.weights place.node.calls hentered
    (Session.Grown.start (s := Session.starting r h) rfl)
  obtain ⟨made, hmade, hall⟩ := hgrown.recorded
  rw [recorder_analyze, (a.analyze_eq_final place r h).1]
  refine ⟨made, hmade, fun id hid => ?_⟩
  obtain ⟨hold, hlt⟩ := hall id hid
  obtain ⟨scope, hget⟩ : ∃ scope, (Step.final (Step.makeAll a.weights place.above place.node.calls)
      (Session.starting r h)).scopes.get? id = some scope := ⟨_, Array.getElem?_eq_getElem hlt⟩
  exact ⟨scope, hget, hgrown.opened hold hget⟩

end Analyzer

end ScopeScore
