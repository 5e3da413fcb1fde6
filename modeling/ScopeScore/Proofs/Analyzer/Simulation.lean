import ScopeScore.Proofs.Analyzer.Refusal
import ScopeScore.Proofs.Analyzer.Relocation
import ScopeScore.Proofs.Tree.Likeness

set_option autoImplicit false

/-! # Runs side by side

Two trees may differ and still make an analyzer do the same, step by step. To compare two runs, their
sessions are compared: `Session.Alike R` says that they agree in everything but the nodes of their
scopes, which are related by `R`. A step simulates another (`Step.Simulates`) if it leads from alike
sessions to alike sessions and fails exactly where the other does.

* `Step.run_walkFrom`: during a walk a scope is closed where a node of scope kind is left. So leaving
  may be read as a matter of the kind alone, which two runs can share.
* `Step.simulates_enter`: entering simulates entering, if the trees look alike there.

**`Analyzer.twins_of_simulates`**: if one walk simulates another, the runs make the same records,
whatever went before and however they end.
-/

namespace ScopeScore

open Spot Call
open Node (Likeness ReadAlike ScoredAlike)

/-! ## Leaving by kind -/

namespace Step

/-- What happens when a node is left, told by its kind: the innermost scope is closed if the node is
a function or a program. -/
def leaveByKind (v : Visit) : Step Unit :=
  if v.node.kind.isScope then modify fun s => { s with stack := s.stack.tail } else pure ()

/-- At each point of a walk, leaving a node closes a scope exactly if the node is of scope kind. -/
theorem run_makeAll {w : Weights} {outer : List Node} {n : Node} {s₀ : Session}
    (hstack : s₀.stack = []) {pre : List Call} :
    ∀ {post : List Call}, n.calls = pre ++ post →
      (makeAll w outer pre).run s₀ =
        EStateM.run (forM pre (Call.perform (enter w outer) leaveByKind)) s₀ := by
  induction pre using List.reverseRecOn with
  | nil =>
      intro post _
      rfl
  | append_singleton pre c ih =>
      intro post hn
      rw [List.append_assoc] at hn
      have hsplit : (makeAll w outer (pre ++ [c])).run s₀ =
          EStateM.run (makeAll w outer pre >>= fun _ => makeAll w outer [c]) s₀ := by
        rw [makeAll, List.forM_append]
        rfl
      rw [hsplit, List.forM_append, EStateM.run_bind, EStateM.run_bind, ← ih hn]
      cases hrun : (makeAll w outer pre).run s₀ with
      | error e s => rfl
      | ok u s =>
          show (makeAll w outer [c]).run s = _
          rw [makeAll, forM_singleton_run]
          show _ = EStateM.run (forM [c] (Call.perform (enter w outer) leaveByKind)) s
          rw [forM_singleton_run]
          cases c with
          | enter t => rfl
          | leave t =>
              -- here the innermost open spot is `t`, so the session says whether it opened a scope
              obtain ⟨cur, hlead, rfl, -⟩ := exists_leads_of_calls_eq hn
              have hmirror := mirrors_of_run_makeAll hstack hn hlead hrun
              show EStateM.Result.ok () (s.close t.node) = (leaveByKind t.visit).run s
              rw [hmirror.close_eq (mem_walked_of_leave hn), leaveByKind]
              show _ = EStateM.run (if t.isScope = true then _ else _) s
              cases t.isScope <;> rfl

/-- **A run is the recursive walk that closes scopes by kind.** -/
theorem run_walkFrom (w : Weights) (place : Place) {s₀ : Session} (hstack : s₀.stack = []) :
    (walkFrom w place).run s₀ =
      (visit (enter w place.above) leaveByKind [] place.node).run s₀ := by
  have hcalls : place.node.calls = place.node.calls ++ [] := by simp
  have hvisit : visit (enter w place.above) leaveByKind [] place.node =
      forM place.node.calls (Call.perform (enter w place.above) leaveByKind) :=
    visit_eq_forM_callsFrom _ _ (.start place.node) place.node rfl
  rw [walkFrom_eq_makeAll, run_makeAll hstack hcalls, hvisit]

end Step

/-! ## Scopes that are alike -/

/-- Scopes that agree in everything but their nodes, and these are related. -/
structure Scope.Alike (R : Node → Node → Prop) (s s' : Scope) : Prop where
  node : R s.node s'.node
  parent : Option.Rel R s.parent s'.parent
  depth : s'.depth = s.depth
  own : s'.own = s.own
  children : s'.children = s.children

namespace Scope

variable {R : Node → Node → Prop} {s s' : Scope}

theorem isProgram_eq (hR : ScoredAlike R) (h : R s.node s'.node) :
    s'.isProgram = s.isProgram := by
  rw [isProgram, isProgram, hR.kind h]

theorem location_eq (hR : ScoredAlike R) (h : R s.node s'.node) : s'.location = s.location := by
  rw [location, location, isProgram_eq hR h, hR.line h]

theorem targetName?_eq (hR : Likeness R) {c c' : Node} (h : ReadAlike R c c') :
    targetName? c' = targetName? c := by
  have hname := hR.identifierName?_eq (Option.Rel.some h)
  rcases h with h | ⟨h, h'⟩
  · rw [targetName?, targetName?, hname, hR.kind h, hR.memberPath_eq h]
  · rw [targetName?, targetName?, hname, Kind.isMember_of_isMute h, Kind.isMember_of_isMute h']
    rfl

theorem variableName?_eq (hR : Likeness R) (h : Option.Rel R s.parent s'.parent) :
    s'.variableName? = s.variableName? := by
  rw [variableName?, variableName?]
  rcases cases_of_rel h with ⟨hp, hp'⟩ | ⟨p, p', hp, hp', hr⟩
  · rw [hp, hp']
  · rw [hp, hp']
    simp only [hR.kind hr, hR.identifierName?_eq (hR.child hr "name")]

theorem assignedName?_eq (hR : Likeness R) (h : Option.Rel R s.parent s'.parent) :
    s'.assignedName? = s.assignedName? := by
  rw [assignedName?, assignedName?]
  rcases cases_of_rel h with ⟨hp, hp'⟩ | ⟨p, p', hp, hp', hr⟩
  · rw [hp, hp']
  · rw [hp, hp']
    rcases cases_of_rel (hR.child hr "left") with ⟨hc, hc'⟩ | ⟨c, c', hc, hc', hread⟩
    · simp only [hR.kind hr, hc, hc']
    · simp only [hR.kind hr, hc, hc', targetName?_eq hR hread]

/-- **Scopes whose nodes and naming nodes look alike have the same signature**, or the same fault in
it. -/
theorem signature_eq (hR : Likeness R) (hnode : R s.node s'.node)
    (hparent : Option.Rel R s.parent s'.parent) : s'.signature = s.signature := by
  have hown : s'.ownName? = s.ownName? := hR.identifierName?_eq (hR.child hnode "name")
  have hname : s'.functionName? = s.functionName? := by
    rw [functionName?, functionName?, hown, variableName?_eq hR hparent,
      assignedName?_eq hR hparent]
  rw [signature, signature, isProgram_eq hR.scoredAlike hnode, hname]

end Scope

/-! ## Stores and sessions that are alike -/

/-- Stores that hold alike scopes under the same numbers. -/
structure Store.Alike (R : Node → Node → Prop) (s s' : Store) : Prop where
  size : s'.size = s.size
  scope : ∀ id, Option.Rel (Scope.Alike R) (s.get? id) (s'.get? id)

namespace Store.Alike

variable {R : Node → Node → Prop} {s s' : Store}

theorem empty : Store.Alike R {} {} := by
  refine ⟨rfl, fun id => ?_⟩
  rw [get?_eq_none_of_le (Nat.zero_le id)]
  exact .none

theorem insert (h : s.Alike R s') {x x' : Scope} (hx : x.Alike R x') :
    (s.insert x).Alike R (s'.insert x') := by
  refine ⟨by rw [size_insert, size_insert, h.size], fun id => ?_⟩
  have hnext : s'.next = s.next := h.size
  rw [get?_insert, get?_insert, hnext]
  by_cases hid : id = s.next
  · rw [if_pos hid, if_pos hid]
    exact .some hx
  · rw [if_neg hid, if_neg hid]
    exact h.scope id

theorem modify (h : s.Alike R s') (id : ScopeId) {g : Scope → Scope}
    (hg : ∀ x x', x.Alike R x' → (g x).Alike R (g x')) :
    (s.modify id g).Alike R (s'.modify id g) := by
  refine ⟨by rw [size_modify, size_modify, h.size], fun other => ?_⟩
  rw [get?_modify, get?_modify]
  by_cases hid : other = id
  · rw [if_pos hid, if_pos hid]
    rcases cases_of_rel (h.scope id) with ⟨hx, hx'⟩ | ⟨x, x', hx, hx', halike⟩
    · rw [hx, hx']
      exact .none
    · rw [hx, hx']
      exact .some (hg x x' halike)
  · rw [if_neg hid, if_neg hid]
    exact h.scope other

theorem setOwn (h : s.Alike R s') (id : ScopeId) (own : Amount) :
    (s.modify id fun x => { x with own := own }).Alike R
      (s'.modify id fun x => { x with own := own }) :=
  h.modify id fun _ _ hx => ⟨hx.node, hx.parent, hx.depth, rfl, hx.children⟩

theorem adopt (h : s.Alike R s') (parent child : ScopeId) :
    (s.adopt parent child).Alike R (s'.adopt parent child) :=
  h.modify parent fun _ _ hx =>
    ⟨hx.node, hx.parent, hx.depth, hx.own, congrArg (· ++ [child]) hx.children⟩

theorem scoreWithin_eq (h : s.Alike R s') (bound : Nat) (id : ScopeId) :
    s'.scoreWithin bound id = s.scoreWithin bound id := by
  induction bound generalizing id with
  | zero => rfl
  | succ bound ih =>
      have hsame : s'.scoreWithin bound = s.scoreWithin bound := funext ih
      rcases cases_of_rel (h.scope id) with ⟨hx, hx'⟩ | ⟨x, x', hx, hx', halike⟩
      · simp only [scoreWithin, hx, hx']
      · simp only [scoreWithin, hx, hx', halike.own, halike.children, hsame]

theorem score_eq (h : s.Alike R s') (id : ScopeId) : s'.score id = s.score id := by
  rw [score, score, h.size, h.scoreWithin_eq]

end Store.Alike

/-- Sessions that agree in everything but the nodes of their scopes, and these are related. They
know of no scopes but their own. -/
structure Session.Alike (R : Node → Node → Prop) (s s' : Session) : Prop where
  stack : s'.stack = s.stack
  recorder : s'.recorder = s.recorder
  log : s'.history.log = s.history.log
  scopes : s.scopes.Alike R s'.scopes
  known : ∀ id ∈ s.stack ++ s.recorder.records, id < s.scopes.size

theorem Session.alike_starting (R : Node → Node → Prop) {r : Recorder} (hr : r.records = []) :
    (starting r {}).Alike R (starting r {}) := by
  refine ⟨rfl, rfl, rfl, Store.Alike.empty, fun id hid => ?_⟩
  rw [starting, hr] at hid
  cases hid

namespace Step

variable {R : Node → Node → Prop}

/-- Results that are alike: both are alike sessions, with the same failure if there is one. -/
inductive ResultsAlike (R : Node → Node → Prop) :
    EStateM.Result Failure Session Unit → EStateM.Result Failure Session Unit → Prop
  | ok {s s' : Session} (h : s.Alike R s') : ResultsAlike R (.ok () s) (.ok () s')
  | error (e : Failure) {s s' : Session} (h : s.Alike R s') :
      ResultsAlike R (.error e s) (.error e s')

theorem ResultsAlike.cases {x x' : EStateM.Result Failure Session Unit}
    (h : ResultsAlike R x x') :
    (∃ s s', x = .ok () s ∧ x' = .ok () s' ∧ s.Alike R s') ∨
      ∃ e s s', x = .error e s ∧ x' = .error e s' ∧ s.Alike R s' := by
  cases h with
  | ok h => exact Or.inl ⟨_, _, rfl, rfl, h⟩
  | error e h => exact Or.inr ⟨e, _, _, rfl, rfl, h⟩

/-- The step `x'` does to an alike session what `x` does. -/
def Simulates (R : Node → Node → Prop) (x x' : Step Unit) : Prop :=
  ∀ s s' : Session, s.Alike R s' → ResultsAlike R (x.run s) (x'.run s')

theorem simulates_pure : Simulates R (pure ()) (pure ()) := fun _ _ h => .ok h

theorem simulates_bind {x x' y y' : Step Unit} (hx : Simulates R x x') (hy : Simulates R y y') :
    Simulates R (x >>= fun _ => y) (x' >>= fun _ => y') := by
  intro s s' h
  rw [EStateM.run_bind, EStateM.run_bind]
  rcases (hx s s' h).cases with ⟨t, t', ht, ht', halike⟩ | ⟨e, t, t', ht, ht', halike⟩
  · rw [ht, ht']
    exact hy t t' halike
  · rw [ht, ht']
    exact .error e halike

theorem simulates_forM {α : Type} {x x' : α → Step Unit} (hx : ∀ a, Simulates R (x a) (x' a))
    (as : List α) : Simulates R (forM as x) (forM as x') := by
  induction as with
  | nil => exact simulates_pure
  | cons a as ih =>
      rw [List.forM_cons, List.forM_cons]
      exact simulates_bind (hx a) ih

theorem simulates_modify {g g' : Session → Session}
    (hg : ∀ s s', s.Alike R s' → (g s).Alike R (g' s')) :
    Simulates R (modify g) (modify g') := fun s s' h => .ok (hg s s' h)

/-! ## The parts of a step -/

theorem simulates_charge (a : Amount) :
    Simulates R (attempt (Session.charge · a)) (attempt (Session.charge · a)) := by
  intro s s' h
  have hctx : s'.context? = s.context? := by rw [Session.context?, Session.context?, h.stack]
  rw [run_attempt, run_attempt]
  cases hc : s.context? with
  | none =>
      rw [hc] at hctx
      rw [Session.charge_of_no_context a hc, Session.charge_of_no_context a hctx]
      exact .ok h
  | some id =>
      rw [hc] at hctx
      rcases cases_of_rel (h.scopes.scope id) with ⟨hx, hx'⟩ | ⟨x, x', hx, hx', halike⟩
      · have hkeep : s.charge a = .ok s := by
          simp only [Session.charge, hc, Store.charge, hx]
          rfl
        have hkeep' : s'.charge a = .ok s' := by
          simp only [Session.charge, hctx, Store.charge, hx']
          rfl
        rw [hkeep, hkeep']
        exact .ok h
      · rw [Session.charge_of_context a hc hx, Session.charge_of_context a hctx hx', halike.own]
        cases x.own.add a with
        | error e => exact .error e h
        | ok own =>
            have hsize : (s.setOwn id own).scopes.size = s.scopes.size :=
              s.size_scopes_setOwn id own
            exact .ok ⟨h.stack, h.recorder, h.log, h.scopes.setOwn id own, hsize ▸ h.known⟩

theorem simulates_record : Simulates R (attempt Session.record) (attempt Session.record) := by
  intro s s' h
  have hctx : s'.context? = s.context? := by rw [Session.context?, Session.context?, h.stack]
  rw [run_attempt, run_attempt, Session.record, Session.record, hctx, h.recorder]
  cases hc : s.context? with
  | none => exact .ok h
  | some id =>
      cases hadd : s.recorder.add id with
      | error e =>
          simp only [hadd]
          exact .error e h
      | ok r =>
          simp only [hadd]
          refine .ok ⟨h.stack, rfl, h.log, h.scopes, fun other hother => ?_⟩
          -- a scope that is recorded is on the stack
          obtain ⟨-, rfl⟩ := Recorder.add_eq_ok_iff.1 hadd
          have hcases : other ∈ s.stack ++ s.recorder.records ∨ other ∈ [id] :=
            List.mem_append.1 (List.append_assoc s.stack .. ▸ hother)
          rcases hcases with hother | hother
          · exact h.known other hother
          · obtain rfl := List.mem_singleton.1 hother
            exact h.known other (List.mem_append_left _ (List.mem_of_mem_head? hc))

/-- What both runs must see of a node for the same to happen when it is entered. -/
structure Meets (R : Node → Node → Prop) (outer outer' : List Node) (v v' : Visit) : Prop where
  node : R v.node v'.node
  naming : Option.Rel R (Session.namingNode? outer v) (Session.namingNode? outer' v')

theorem simulates_openScope (hR : ScoredAlike R) {outer outer' : List Node} {v v' : Visit}
    (hv : Meets R outer outer' v v') :
    Simulates R (modify (Session.openScope outer v)) (modify (Session.openScope outer' v')) := by
  refine simulates_modify fun s s' h => ?_
  have hctx : s'.context? = s.context? := by rw [Session.context?, Session.context?, h.stack]
  have hnext : s'.scopes.next = s.scopes.next := h.scopes.size
  have hdepth : (s'.stack.length : Int) = s.stack.length := by rw [h.stack]
  have hfresh : (s.fresh outer v).Alike R (s'.fresh outer' v') :=
    ⟨hv.node, hv.naming, hdepth, rfl, rfl⟩
  refine ⟨?_, h.recorder, ?_, ?_, ?_⟩
  · rw [Session.stack_openScope, Session.stack_openScope, hnext, h.stack]
  · show s'.history.log.push (.scopeEntered v'.node.line s'.stack.length) =
      s.history.log.push (.scopeEntered v.node.line s.stack.length)
    rw [h.log, hR.line hv.node, hdepth]
  · rw [Session.scopes_openScope, Session.scopes_openScope, hctx, hnext]
    cases s.context? with
    | none => exact h.scopes.insert hfresh
    | some p => exact (h.scopes.insert hfresh).adopt p s.scopes.next
  · intro id hid
    rw [Session.stack_openScope, List.cons_append] at hid
    rw [Session.size_scopes_openScope]
    rcases List.mem_cons.1 hid with rfl | hid
    · exact Nat.lt_succ_self _
    · exact Nat.lt_succ_of_lt (h.known id hid)

/-! ## The visitors -/

/-- **Entering simulates entering**, where the trees look alike. -/
theorem simulates_enter (hR : ScoredAlike R) (w : Weights) {outer outer' : List Node} {v v' : Visit}
    (hv : Meets R outer outer' v v') : Simulates R (enter w outer v) (enter w outer' v') := by
  have hcharge : v'.node.charge w = v.node.charge w := by
    rw [Node.charge, Node.charge, hR.penalties hv.node]
  unfold enter
  rw [hcharge, hR.kind hv.node]
  refine simulates_bind (simulates_forM (fun a => simulates_charge a) _) ?_
  cases v.node.kind.isScope with
  | false => exact simulates_pure
  | true => exact simulates_bind (simulates_openScope hR hv) simulates_record

theorem simulates_leaveByKind {v v' : Visit} (h : v'.node.kind = v.node.kind) :
    Simulates R (leaveByKind v) (leaveByKind v') := by
  unfold leaveByKind
  rw [h]
  cases v.node.kind.isScope with
  | false => exact simulates_pure
  | true =>
      refine simulates_modify fun s s' hs => ?_
      refine ⟨congrArg List.tail hs.stack, hs.recorder, hs.log, hs.scopes, fun id hid => ?_⟩
      refine hs.known id ?_
      rcases List.mem_append.1 hid with hid | hid
      · exact List.mem_append_left _ (List.mem_of_mem_tail hid)
      · exact List.mem_append_right _ hid

/-! ## Walks in step

Where related nodes have related children, one by one, a walk simulates the other all the way. -/

/-- Doing alike things for related nodes, one after the other, is doing something alike. -/
theorem simulates_forM_of_forall₂ {S : Node → Node → Prop} {x x' : Node → Step Unit}
    {cs cs' : List Node} (h : List.Forall₂ S cs cs')
    (hx : ∀ c ∈ cs, ∀ c', S c c' → Simulates R (x c) (x' c')) :
    Simulates R (forM cs x) (forM cs' x') := by
  induction h with
  | nil => exact simulates_pure
  | @cons c c' cs cs' hc _ ih =>
      rw [List.forM_cons, List.forM_cons]
      refine simulates_bind (hx c List.mem_cons_self c' hc) (ih ?_)
      intro d hd
      exact hx d (List.mem_cons_of_mem c hd)

/-- Functions that two walks meet at the ends of related paths are named by related nodes. -/
theorem meets_of_forall₂ (hR : ScoredAlike R) {outer outer' path path' : List Node} {n n' : Node}
    (hn : R n n') (hpath : List.Forall₂ R path path') (houter : List.Forall₂ R outer outer') :
    Meets R outer outer' { node := n, path := path } { node := n', path := path' } := by
  refine ⟨hn, ?_⟩
  cases hpath with
  | nil => exact .none
  | @cons p p' path path' hp hpath =>
      refine Node.rel_find?_of_forall₂ (.cons hp (List.rel_append hpath houter)) ?_
      intro c c' hc
      rw [hR.kind hc]

/-- **A walk simulates the other** if related nodes have related children. -/
theorem simulates_visit_of_children (hR : ScoredAlike R)
    (hchildren : ∀ {n n' : Node}, R n n' → List.Forall₂ R n.namedChildren n'.namedChildren)
    (w : Weights) {outer outer' : List Node} (houter : List.Forall₂ R outer outer')
    {path path' : List Node} (n n' : Node) (hn : R n n') (hpath : List.Forall₂ R path path') :
    Simulates R (visit (enter w outer) leaveByKind path n)
      (visit (enter w outer') leaveByKind path' n') := by
  rw [visit_eq, visit_eq, visitAll_eq_forM, visitAll_eq_forM]
  refine simulates_bind ?_ (simulates_bind ?_ ?_)
  · exact simulates_enter hR w (meets_of_forall₂ hR hn hpath houter)
  · refine simulates_forM_of_forall₂ (hchildren hn) ?_
    intro c hc c' hcc
    have hsize : c.size < n.size := Node.size_lt_of_mem (List.mem_filter.1 hc).1
    exact simulates_visit_of_children hR hchildren w houter c c' hcc (.cons hn hpath)
  · exact simulates_leaveByKind (hR.kind hn)
termination_by n.size

end Step

/-! ## The records of both runs -/

/-- The scopes at position `k` of two runs, which number their scopes from `base` and from `base'`
on: they have related nodes and agree in all that scoring alone says of them. -/
structure Store.Figures (R : Node → Node → Prop) (s s' : Store) (base base' : ScopeId) (k : Nat) :
    Prop where
  scope : ∃ scope scope', s.get? (base + k) = some scope ∧ s'.get? (base' + k) = some scope' ∧
    R scope.node scope'.node ∧ Option.Rel R scope.parent scope'.parent ∧
    scope'.depth = scope.depth ∧ scope'.location = scope.location ∧ scope'.own = scope.own ∧
    ∃ positions : List Nat, scope.children = positions.map (base + ·) ∧
      scope'.children = positions.map (base' + ·)
  score : s'.score (base' + k) = s.score (base + k)

/-- Such scopes agree in all but their nodes if they have the same signature too. -/
structure Store.Twins (R : Node → Node → Prop) (s s' : Store) (base base' : ScopeId) (k : Nat) :
    Prop extends Store.Figures R s s' base base' k where
  signature : s'.signature (base' + k) = s.signature (base + k)

section Runs

variable {R : Node → Node → Prop}

theorem Store.Alike.signature_eq (hR : Likeness R) {s s' : Store} (h : s.Alike R s')
    (id : ScopeId) : s'.signature id = s.signature id := by
  rcases cases_of_rel (h.scope id) with ⟨hx, hx'⟩ | ⟨x, x', hx, hx', halike⟩
  · rw [signature, signature, hx, hx']
  · rw [signature, signature, hx, hx']
    exact congrArg Node.Read.orFail (Scope.signature_eq hR halike.node halike.parent)

/-- Runs behind earlier ones score alike if they would be alike alone. -/
theorem Analysis.Repeats.figures (hR : ScoredAlike R) {run run' alone alone' : Analysis}
    {h h' : History} {r r' : Recorder} (hrun : run.Repeats alone h r)
    (hrun' : run'.Repeats alone' h' r') (halike : alone.session.Alike R alone'.session) {k : Nat}
    (hk : k < alone.history.scopes.size) :
    run.history.scopes.Figures R run'.history.scopes h.scopes.size h'.scopes.size k := by
  have hscopes : alone.history.scopes.Alike R alone'.history.scopes := halike.scopes
  have hk' : k < alone'.history.scopes.size := hscopes.size ▸ hk
  obtain ⟨x, hx⟩ : ∃ x, alone.history.scopes.get? k = some x :=
    ⟨_, Array.getElem?_eq_getElem hk⟩
  obtain ⟨x', hx'⟩ : ∃ x', alone'.history.scopes.get? k = some x' :=
    ⟨_, Array.getElem?_eq_getElem hk'⟩
  have hxx : x.Alike R x' := by
    have hrel := hscopes.scope k
    rw [hx, hx'] at hrel
    cases hrel with
    | some hxx => exact hxx
  refine ⟨⟨x.shift h.scopes.size, x'.shift h'.scopes.size, ?_, ?_, hxx.node, hxx.parent, hxx.depth,
    Scope.location_eq hR hxx.node, hxx.own, x.children, rfl, ?_⟩, ?_⟩
  · rw [hrun.scope, hx]
    rfl
  · rw [hrun'.scope, hx']
    rfl
  · show x'.children.map (h'.scopes.size + ·) = _
    rw [hxx.children]
  · rw [hrun.score k hk, hrun'.score k hk', hscopes.score_eq]

/-- They have twins if the trees also read alike. -/
theorem Analysis.Repeats.twins (hR : Likeness R) {run run' alone alone' : Analysis}
    {h h' : History} {r r' : Recorder} (hrun : run.Repeats alone h r)
    (hrun' : run'.Repeats alone' h' r') (halike : alone.session.Alike R alone'.session) {k : Nat}
    (hk : k < alone.history.scopes.size) :
    run.history.scopes.Twins R run'.history.scopes h.scopes.size h'.scopes.size k := by
  have hfigures := hrun.figures hR.scoredAlike hrun' halike hk
  refine ⟨hfigures, ?_⟩
  have hscopes : alone.history.scopes.Alike R alone'.history.scopes := halike.scopes
  rw [hrun.signature, hrun'.signature, hscopes.signature_eq hR]

namespace Analyzer

/-- If one walk simulates another, the runs end alike when nothing was there before. -/
theorem alike_of_simulates {a : Analyzer} {place place' : Place}
    (hsim : Step.Simulates R
      (visit (Step.enter a.weights place.above) Step.leaveByKind [] place.node)
      (visit (Step.enter a.weights place'.above) Step.leaveByKind [] place'.node))
    {r : Recorder} (hr : r.records = []) :
    (a.analyze (some place') r {}).failure = (a.analyze (some place) r {}).failure ∧
    (a.analyze (some place) r {}).session.Alike R (a.analyze (some place') r {}).session := by
  have hend := hsim _ _ (Session.alike_starting R hr)
  rw [← Step.run_walkFrom a.weights place rfl, ← Step.run_walkFrom a.weights place' rfl] at hend
  rw [analyze_some, analyze_some]
  rcases hend.cases with ⟨t, t', ht, ht', h⟩ | ⟨e, t, t', ht, ht', h⟩
  · rw [ht, ht']
    exact ⟨rfl, h⟩
  · rw [ht, ht']
    exact ⟨rfl, h⟩

/-- If one walk simulates another, the runs score alike, and have twins if the trees also read
alike. -/
theorem figures_of_simulates (hR : ScoredAlike R) {a a' : Analyzer}
    (same : a'.weights = a.weights) {place place' : Place}
    (hsim : Step.Simulates R
      (visit (Step.enter a.weights place.above) Step.leaveByKind [] place.node)
      (visit (Step.enter a.weights place'.above) Step.leaveByKind [] place'.node))
    {r r' : Recorder} (room : r'.remaining = r.remaining) (h h' : History) :
    let run := a.analyze (some place) r h
    let run' := a'.analyze (some place') r' h'
    run'.failure = run.failure ∧
    ∃ positions : List Nat,
      run.recorder.records = r.records ++ positions.map (h.scopes.size + ·) ∧
      run'.recorder.records = r'.records ++ positions.map (h'.scopes.size + ·) ∧
      ∀ k ∈ positions,
        run.history.scopes.Figures R run'.history.scopes h.scopes.size h'.scopes.size k ∧
        (Likeness R →
          run.history.scopes.Twins R run'.history.scopes h.scopes.size h'.scopes.size k) := by
  intro run run'
  have hrun := a.analyze_after (some place) r h
  have hrun' := a'.analyze_after (some place') r' h'
  rw [same, room] at hrun'
  obtain ⟨hfailure, halike⟩ :=
    alike_of_simulates (a := { weights := a.weights }) hsim (r := r.remaining) rfl
  refine ⟨?_, _, congrArg Recorder.records hrun.recorder, ?_, fun k hk => ?_⟩
  · rw [hrun'.failure, hrun.failure, hfailure]
  · refine (congrArg Recorder.records hrun'.recorder).trans ?_
    exact congrArg (fun t => r'.records ++ t.records.map (h'.scopes.size + ·)) halike.recorder
  · have hknown := halike.known k (List.mem_append_right _ hk)
    exact ⟨hrun.figures hR hrun' halike hknown, fun hread => hrun.twins hread hrun' halike hknown⟩

/-- **If one walk simulates another, the runs make the same records**, whatever each of the two
analyzers, recorders and histories went through before, if only the recorders have the same room
left. If one of the runs fails, so does the other, for the same cause and at the same place. -/
theorem twins_of_simulates (hR : Likeness R) {a a' : Analyzer} (same : a'.weights = a.weights)
    {place place' : Place}
    (hsim : Step.Simulates R
      (visit (Step.enter a.weights place.above) Step.leaveByKind [] place.node)
      (visit (Step.enter a.weights place'.above) Step.leaveByKind [] place'.node))
    {r r' : Recorder} (room : r'.remaining = r.remaining) (h h' : History) :
    let run := a.analyze (some place) r h
    let run' := a'.analyze (some place') r' h'
    run'.failure = run.failure ∧
    ∃ positions : List Nat,
      run.recorder.records = r.records ++ positions.map (h.scopes.size + ·) ∧
      run'.recorder.records = r'.records ++ positions.map (h'.scopes.size + ·) ∧
      ∀ k ∈ positions,
        run.history.scopes.Twins R run'.history.scopes h.scopes.size h'.scopes.size k := by
  obtain ⟨hfailure, positions, hrecords, hrecords', hall⟩ :=
    figures_of_simulates hR.scoredAlike same hsim room h h'
  exact ⟨hfailure, positions, hrecords, hrecords', fun k hk => (hall k hk).2 hR⟩

end Analyzer

end Runs

end ScopeScore
