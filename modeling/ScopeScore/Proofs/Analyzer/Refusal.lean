import ScopeScore.Proofs.Analyzer.Stack

set_option autoImplicit false

/-! # Runs that a recorder stops

A recorder may refuse a scope. The run then ends in the middle of a call: the scope has been opened,
linked to the one around it and put on the stack, and nothing takes it away again. What such a run
leaves behind is `Analysis.StoppedAt`, and **`Analyzer.stops_at_refused_scope`** says that it is this
for every tree and every scope at which the recorder may refuse.

* `Recorder.RefusesAfter`: a recorder takes a number of scopes and refuses the next one.
* `Session.Mirrors.enter_refused`: what entering the refused spot leaves behind; up to there the walk
  is one that does not fail.
-/

namespace ScopeScore

open Spot Call

/-! ## Recorders that refuse -/

namespace Recorder

/-- The recorder takes any `k` scopes and refuses the one after them for the cause `e`. -/
def RefusesAfter (r : Recorder) (k : Nat) (e : Failure) : Prop :=
  ∀ ids : List ScopeId, ids.length = k → ∀ id,
    ∃ r', ids.foldlM add r = .ok r' ∧ r'.add id = .error e

theorem add_eq_ok_iff {r r' : Recorder} {id : ScopeId} :
    r.add id = .ok r' ↔ r.isFull = false ∧ r' = r.holding [id] := by
  unfold add
  cases r.isFull with
  | true => simp
  | false => simp [holding, eq_comm]

theorem hasRoom_one_of_not_full {r : Recorder} (h : r.isFull = false) : r.HasRoom 1 := by
  intro l hl
  have hlt : ¬ l ≤ r.records.length := by
    simpa [isFull, hl] using h
  omega

/-- What a recorder has taken it holds, and it had room for it. -/
theorem foldlM_add_eq_ok {ids : List ScopeId} :
    ∀ {r r' : Recorder}, ids.foldlM add r = .ok r' →
      r' = r.holding ids ∧ (ids ≠ [] → r.HasRoom ids.length) := by
  induction ids with
  | nil =>
      intro r r' h
      obtain rfl : r = r' := Except.ok.inj h
      exact ⟨by simp [holding], fun hne => absurd rfl hne⟩
  | cons id ids ih =>
      intro r r' h
      rw [List.foldlM_cons] at h
      cases hadd : r.add id with
      | error e =>
          rw [hadd] at h
          cases h
      | ok r₁ =>
          rw [hadd] at h
          obtain ⟨hfull, rfl⟩ := add_eq_ok_iff.1 hadd
          obtain ⟨hr', hroom⟩ := ih h
          refine ⟨by rw [hr', holding_holding, List.singleton_append], fun _ => ?_⟩
          intro l hl
          have hone : r.records.length + 1 ≤ l := hasRoom_one_of_not_full hfull l hl
          by_cases hids : ids = []
          · simpa [hids] using hone
          · -- the other scopes find one more scope held
            have hrest : (r.holding [id]).records.length + ids.length ≤ l := hroom hids l hl
            simp only [holding, List.length_append, List.length_singleton] at hrest
            simp only [List.length_cons]
            omega

theorem RefusesAfter.hasRoom {r : Recorder} {j k : Nat} {e : Failure} (h : r.RefusesAfter k e)
    (hj : j < k) : r.HasRoom (j + 1) := by
  obtain ⟨r', hadd, -⟩ := h (List.replicate k 0) List.length_replicate 0
  have hne : List.replicate k 0 ≠ [] := by
    intro hnil
    have hlen := congrArg List.length hnil
    simp at hlen
    omega
  have hroom := (foldlM_add_eq_ok hadd).2 hne
  rw [List.length_replicate] at hroom
  exact hroom.mono hj

theorem RefusesAfter.add_holding {r : Recorder} {e : Failure} {ids : List ScopeId}
    (h : r.RefusesAfter ids.length e) (id : ScopeId) : (r.holding ids).add id = .error e := by
  obtain ⟨r', hadd, hrefuse⟩ := h ids rfl id
  rwa [(foldlM_add_eq_ok hadd).1] at hrefuse

end Recorder

/-! ## The refused scope -/

/-- How entering a node ends if the recorder refuses the scope opened there. -/
theorem Step.enter_eq_error_of_refused {w : Weights} {outer : List Node} {v : Visit} {e : Failure}
    {s s₁ : Session} (hv : v.node.kind.isScope = true)
    (hcharge : (Step.chargeAll (v.node.charge w)).run s = .ok () s₁)
    (hadd : s₁.recorder.add s₁.scopes.next = .error e) :
    (Step.enter w outer v).run s = .error e (s₁.openScope outer v) := by
  rw [run_enter, hcharge]
  simp only [hv, if_true, run_attempt, Session.record_openScope, hadd, Except.map]

namespace Session.Mirrors

variable {w : Weights} {f : Category → Int} {outer : List Node} {old : Store} {es : List Spot}
  {t : Spot} {s : Session} {n : Node}

/-- Entering a spot whose scope is refused leaves the session as if the scope had been recorded, but
for the recorder. -/
theorem enter_refused {rest : List Spot} {e : Failure} (hn : n.walked = es ++ t :: rest)
    (ht : t.isScope = true) (hf : ∀ c, w.get c = .int (f c))
    (h : Mirrors w outer old es (scopesAmong es) t.parent? s)
    (hrefuse : ∀ id, s.recorder.add id = .error e) :
    ∃ s', (Step.enter w outer t.visit).run s = .error e s' ∧ s'.recorder = s.recorder ∧
      Mirrors w outer old (es ++ [t]) (scopesAmong (es ++ [t])) (some t) s' := by
  obtain ⟨s₁, hcharge⟩ := h.charge_total fun v _ => ⟨_, total_charges_of_ints hf _⟩
  obtain ⟨hmirror, hrec⟩ := h.charge hcharge
  have hadd : s₁.recorder.add s₁.scopes.next = .error e := by
    rw [hrec]
    exact hrefuse _
  exact ⟨_, Step.enter_eq_error_of_refused (v := t.visit) ht hcharge hadd, hrec,
    hmirror.openScope_next hn ht⟩

/-- While a scope is on top of the stack, it is the last child of the one under it. -/
theorem getLast?_childrenOf_of_stack {ss : List Spot} (h : Mirrors w outer old es ss (some t) s)
    (ht : t.isScope = true) {top below : ScopeId} {others : List ScopeId}
    (hstack : s.stack = top :: below :: others) :
    (s.scopes.childrenOf below).getLast? = some top := by
  have hopen : (openFrom (some t)).filter isScope = t :: t.above.filter isScope := by
    simp [openFrom, upward, ht]
  rw [h.stack, hopen, List.map_cons] at hstack
  obtain ⟨rfl, htail⟩ := List.cons.inj hstack
  obtain ⟨u, us, habove, rfl, -⟩ := List.map_eq_cons_iff.1 htail
  -- the scope under that of `t` is the one into which `t` falls
  have henc : t.enclosing? = some u := by
    rw [enclosing?, ← List.head?_filter, habove]
    rfl
  have hu : u ∈ ss :=
    h.opened u (List.mem_cons_of_mem t (mem_above_of_enclosing? henc)) (isScope_of_enclosing? henc)
  rw [h.childrenOf_number hu, List.getLast?_map, h.last t List.mem_cons_self ht u henc,
    Option.map_some]

end Session.Mirrors

/-! ## The whole run -/

/-- What a run leaves behind that a recorder stopped at the spot `t`, where the scope after the first
`k` is opened. The run walks the tree of `n`, it entered the spots `es` before `t`, and it began with
the recorder `r` and the history `h`. -/
structure Analysis.StoppedAt (run : Analysis) (w : Weights) (n : Node) (r : Recorder) (h : History)
    (k : Nat) (es : List Spot) (t : Spot) (e : Failure) : Prop where
  failure : run.failure = some e
  /-- The recorder holds the first `k` scopes, in order. -/
  recorder : run.recorder = r.holding ((n.openings.take k).map (number h.scopes.size n.openings))
  collector : run.analyzer.collector = none
  /-- The stack holds the scopes on the way down to `t`, with that of `t` on top. -/
  stack : run.analyzer.stack.reverse = t.scopesDown.map (number h.scopes.size n.openings)
  /-- The refused scope is the last child of the one under it. -/
  linked : ∀ top below others, run.analyzer.stack = top :: below :: others →
    (run.history.scopes.childrenOf below).getLast? = some top
  /-- There is one scope more than the recorder was willing to take, and no other. -/
  size : run.history.scopes.size = h.scopes.size + (k + 1)
  /-- Each scope has been charged what fell into it up to `t`. -/
  own : ∀ v ∈ n.openings.take (k + 1), ∃ scope,
    run.history.scopes.get? (number h.scopes.size n.openings v) = some scope ∧
    scope.node = v.node ∧
    Amount.total (charges w (fallingInto v (es ++ [t]))) = .ok scope.own

/-- Where the scope after the first `k` is opened. -/
theorem Node.exists_walked_eq_of_lt {n : Node} {k : Nat} (hk : k < n.openings.length) :
    ∃ es t rest, n.walked = es ++ t :: rest ∧ n.openings[k]? = some t ∧ t.isScope = true ∧
      scopesAmong es = n.openings.take k := by
  have hscopes : n.walked.filter isScope =
      n.openings.take k ++ n.openings[k] :: n.openings.drop (k + 1) := by
    rw [← List.drop_eq_getElem_cons hk, List.take_append_drop]
    rfl
  obtain ⟨first, others, hwalked, hfirst, hothers⟩ := List.filter_eq_append_iff.1 hscopes
  obtain ⟨skipped, rest, rfl, hskipped, hscope, -⟩ := List.filter_eq_cons_iff.1 hothers
  refine ⟨first ++ skipped, _, rest, by simp [hwalked], List.getElem?_eq_getElem hk, hscope, ?_⟩
  -- what is skipped opens no scope
  have hnone : scopesAmong skipped = [] := List.filter_eq_nil_iff.2 hskipped
  rw [scopesAmong_append, hnone, List.append_nil]
  exact hfirst

namespace Analyzer

/-- A run gets to the refused scope and ends there. -/
theorem exists_run_walkFrom_eq_error (w : Weights) (place : Place) (r : Recorder) (h : History)
    {f : Category → Int} (hf : ∀ c, w.get c = .int (f c)) {k : Nat} {e : Failure}
    {es rest : List Spot} {t : Spot} (hn : place.node.walked = es ++ t :: rest)
    (ht : t.isScope = true) (hk : (scopesAmong es).length = k) (hr : r.RefusesAfter k e) :
    ∃ s, (Step.walkFrom w place).run (Session.starting r h) = .error e s ∧
      s.recorder = r.holding ((scopesAmong es).map (number h.scopes.size (scopesAmong es))) ∧
      Session.Mirrors w place.above h.scopes (es ++ [t]) (scopesAmong (es ++ [t])) (some t) s := by
  obtain ⟨pre, post, hcalls, hpre⟩ := exists_calls_eq_of_walked_eq hn
  obtain ⟨cur, hlead, hcur, -⟩ := exists_leads_of_calls_eq hcalls
  obtain rfl : t.parent? = cur := hcur
  -- up to `t` no scope is refused, so all calls before it are made
  have hreach : ∃ s, (Step.makeAll w place.above pre).run (Session.starting r h) = .ok () s ∧
      Session.Mirrors w place.above h.scopes (entered pre) (scopesAmong (entered pre)) t.parent? s ∧
      s.recorder = r.holding
        ((scopesAmong (entered pre)).map (number h.scopes.size (scopesAmong (entered pre)))) := by
    refine walk_reaches
      (fun es cur s => Session.Mirrors w place.above h.scopes es (scopesAmong es) cur s ∧
        s.recorder = r.holding ((scopesAmong es).map (number h.scopes.size (scopesAmong es))))
      ?_ ?_ hcalls hlead ?_
    · exact ⟨Session.Mirrors.start w place.above (Session.starting r h) rfl,
        by simp [scopesAmong, Recorder.holding, Session.starting]⟩
    · rintro es' u s hu ⟨hmirror, hrec⟩
      refine ⟨s.close u.node, Step.run_leave u.visit s, hmirror.close hu, ?_⟩
      rw [Session.recorder_close, hrec]
    · rintro es' rest' u s hes' ⟨hmirror, hrec⟩
      have hn' : place.node.walked = es' ++ u :: (rest' ++ t :: rest) := by
        rw [hn, ← hpre, hes']
        simp
      have hroom : u.isScope = true → r.HasRoom ((scopesAmong es').length + 1) := by
        intro hu
        refine hr.hasRoom ?_
        rw [← hk, ← hpre, hes', scopesAmong_append, List.length_append]
        simp [scopesAmong, hu]
      obtain ⟨s₁, hrun, hrec₁⟩ := hmirror.enter_total hn' hrec hroom
        fun v _ => ⟨_, total_charges_of_ints hf _⟩
      exact ⟨s₁, hrun, hmirror.enter hn' hrun, hrec₁⟩
  obtain ⟨s, hrun, hmirror, hrec⟩ := hreach
  rw [hpre] at hmirror hrec
  have hrefuse : ∀ id, s.recorder.add id = .error e := by
    intro id
    rw [hrec]
    refine Recorder.RefusesAfter.add_holding ?_ id
    rwa [List.length_map, hk]
  obtain ⟨s', hlast, hrec', hmirror'⟩ := hmirror.enter_refused hn ht hf hrefuse
  refine ⟨s', ?_, hrec'.trans hrec, hmirror'⟩
  rw [Step.walkFrom_eq_makeAll, hcalls]
  exact forM_append_cons_eq_error hrun hlast

/-- **The state after a refusal.** With integer weights, if the recorder refuses the scope after the
first `k` and the walk has that many, the run fails for the same cause and leaves behind what it did
up to that scope. -/
theorem stops_at_refused_scope (a : Analyzer) (place : Place) (r : Recorder) (h : History)
    {f : Category → Int} (ints : ∀ c, a.weights.get c = .int (f c)) {k : Nat} {e : Failure}
    (fewer : k < place.node.openings.length) (refuses : r.RefusesAfter k e) :
    ∃ es t rest, place.node.walked = es ++ t :: rest ∧ place.node.openings[k]? = some t ∧
      (a.analyze (some place) r h).StoppedAt a.weights place.node r h k es t e := by
  obtain ⟨es, t, rest, hn, hget, ht, hes⟩ := Node.exists_walked_eq_of_lt fewer
  refine ⟨es, t, rest, hn, hget, ?_⟩
  have hlen : (scopesAmong es).length = k := by
    rw [hes, List.length_take]
    omega
  obtain ⟨s, hrun, hrec, hmirror⟩ :=
    exists_run_walkFrom_eq_error a.weights place r h ints hn ht hlen refuses
  rw [analyze_some, hrun]
  -- the scopes opened are the first `k + 1`, and those after them change no number
  have hopened : scopesAmong (es ++ [t]) = place.node.openings.take (k + 1) := by
    have hone : scopesAmong [t] = [t] := by simp [scopesAmong, ht]
    rw [scopesAmong_append, hes, hone, List.take_add_one, hget]
    rfl
  have hnumbers : ∀ us : List Spot, (∀ u ∈ us, u ∈ scopesAmong (es ++ [t])) →
      us.map (number h.scopes.size place.node.openings) =
        us.map (number h.scopes.size (scopesAmong (es ++ [t]))) := by
    intro us hus
    have hall : place.node.openings =
        scopesAmong (es ++ [t]) ++ place.node.openings.drop (k + 1) := by
      rw [hopened, List.take_append_drop]
    rw [hall]
    exact map_number_append hus _
  refine ⟨rfl, ?_, rfl, ?_, ?_, ?_, ?_⟩
  · show s.recorder = _
    rw [hrec, ← hes]
    have hfirst : ∀ u ∈ scopesAmong es, u ∈ scopesAmong (es ++ [t]) := by
      intro u hu
      rw [scopesAmong_append]
      exact List.mem_append_left _ hu
    rw [hnumbers _ hfirst, scopesAmong_append, map_number_append fun u hu => hu]
  · show s.stack.reverse = _
    have hdown : ∀ u ∈ t.scopesDown, u ∈ scopesAmong (es ++ [t]) := by
      intro u hu
      obtain ⟨hup, hscope⟩ := mem_scopesAmong.1 hu
      exact hmirror.opened u (List.mem_reverse.1 hup) hscope
    have hreverse : t.scopesDown = ((openFrom (some t)).filter isScope).reverse := by
      rw [scopesDown, scopesAmong, List.filter_reverse]
      rfl
    rw [hnumbers _ hdown, hmirror.stack, hreverse, List.map_reverse]
  · intro top below others hstack
    exact hmirror.getLast?_childrenOf_of_stack ht hstack
  · show s.scopes.size = _
    rw [hmirror.size, hopened, List.length_take]
    omega
  · intro v hv
    rw [← hopened] at hv
    obtain ⟨own, htotal, hmade⟩ := hmirror.made v hv
    have hnumber : number h.scopes.size place.node.openings v =
        number h.scopes.size (scopesAmong (es ++ [t])) v := by
      simpa using hnumbers [v] (by simpa using hv)
    rw [hnumber]
    exact ⟨_, hmade, rfl, htotal⟩

/-- A recorder that takes one scope and refuses others for a cause of its own. -/
def choosy : Recorder := { limit := some 1, refusal := .metricTaken "scopes" }

/-- In the sample that recorder refuses the scope of the function, which then is on the stack and a
child of the program. -/
theorem stops_sampleTree :
    let run := ({} : Analyzer).analyze (some (Place.top sampleTree)) choosy {}
    run.failure = some (.metricTaken "scopes") ∧ run.recorder.records = [0] ∧
      run.analyzer.stack = [1, 0] ∧ (run.history.scopes.childrenOf 0).getLast? = some 1 := by
  have hrefuses : choosy.RefusesAfter 1 (.metricTaken "scopes") := by
    intro ids hlen id
    obtain ⟨first, rfl⟩ := List.length_eq_one_iff.1 hlen
    exact ⟨_, rfl, rfl⟩
  obtain ⟨es, t, rest, hn, hget, hstop⟩ := stops_at_refused_scope {} (Place.top sampleTree)
    choosy {} Weights.get_default_int (by decide) hrefuses
  have hdown : t.scopesDown.map (number 0 sampleTree.openings) = [0, 1] := by
    have hsecond : (sampleTree.openings[1]?).map
        (fun t => t.scopesDown.map (number 0 sampleTree.openings)) = some [0, 1] := by decide
    have ht : sampleTree.openings[1]? = some t := hget
    rw [ht] at hsecond
    exact Option.some.inj hsecond
  have hstack := List.reverse_eq_iff.1 (hstop.stack.trans hdown)
  refine ⟨hstop.failure, ?_, hstack, hstop.linked 1 0 [] hstack⟩
  exact (congrArg Recorder.records hstop.recorder).trans (by decide)

end Analyzer

end ScopeScore
