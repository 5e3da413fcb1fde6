import ScopeScore.Proofs.Analyzer.Records

set_option autoImplicit false

/-! # The discipline of the stack

What holds of the stack between any two calls that a walk makes of its visitors, in every run, and
what the calls leave alone.

* `Session.Disciplined`: the scopes on the stack are those of the nodes entered and not yet left,
  each as deep as its position says and the last child of the one under it.
* `Session.Keeps`: a scope that is off the stack stays off it and does not change any more. One call
  keeps it so, and therefore any number of calls do (`Step.keeps_final_makeAll`).

**`Analyzer.stack_discipline`** says both of every point of every run.
-/

namespace ScopeScore

open Spot Call

/-! ## The scopes on the way down -/

namespace Spot

/-- The scopes on the way down to a spot, that spot included, the outermost first. -/
def scopesDown (t : Spot) : List Spot := scopesAmong t.upward.reverse

theorem scopesDown_under (p : Spot) (i : Nat) (n : Node) :
    (under p i n).scopesDown = p.scopesDown ++ scopesAmong [under p i n] := by
  rw [scopesDown, upward, List.reverse_cons, scopesAmong_append, above_under]
  rfl

theorem depth_under_eq_length (p : Spot) (i : Nat) (n : Node) :
    (under p i n).depth = p.scopesDown.length := by
  simp [depth, scopesDown, scopesAmong, List.countP_eq_length_filter, List.filter_reverse]

theorem enclosing?_under_eq_getLast? (p : Spot) (i : Nat) (n : Node) :
    (under p i n).enclosing? = p.scopesDown.getLast? := by
  simp [enclosing?, scopesDown, scopesAmong, List.filter_reverse]

theorem getElem?_scopesAmong_singleton {t v : Spot} {i : Nat}
    (h : (scopesAmong [t])[i]? = some v) : i = 0 ∧ v = t := by
  have hlt : i < (scopesAmong [t]).length := (List.getElem?_eq_some_iff.1 h).1
  have hle : (scopesAmong [t]).length ≤ 1 := List.length_filter_le ..
  have hv : v ∈ scopesAmong [t] := List.mem_of_getElem? h
  exact ⟨by omega, List.mem_singleton.1 (mem_scopesAmong.1 hv).1⟩

/-- At a position on the way down there is a scope above the spot, or the spot itself. -/
theorem getElem?_scopesDown_under {p v : Spot} {i j : Nat} {n : Node}
    (h : (under p j n).scopesDown[i]? = some v) :
    p.scopesDown[i]? = some v ∨ i = p.scopesDown.length ∧ v = under p j n := by
  rw [scopesDown_under] at h
  by_cases hi : i < p.scopesDown.length
  · rw [List.getElem?_append_left hi] at h
    exact Or.inl h
  · rw [List.getElem?_append_right (Nat.not_lt.1 hi)] at h
    obtain ⟨hzero, hv⟩ := getElem?_scopesAmong_singleton h
    exact Or.inr ⟨by omega, hv⟩

/-- On the way down the depth is the position. -/
theorem depth_of_getElem?_scopesDown {t v : Spot} {i : Nat} (h : t.scopesDown[i]? = some v) :
    v.depth = i := by
  induction t with
  | start n =>
      obtain ⟨rfl, rfl⟩ := getElem?_scopesAmong_singleton h
      rfl
  | under p j n ih =>
      rcases getElem?_scopesDown_under h with h | ⟨rfl, rfl⟩
      · exact ih h
      · exact depth_under_eq_length p j n

/-- On the way down each scope falls into the one before it. -/
theorem enclosing?_of_getElem?_scopesDown {t u v : Spot} {i : Nat}
    (hv : t.scopesDown[i]? = some v) (hu : t.scopesDown[i + 1]? = some u) :
    u.enclosing? = some v := by
  induction t with
  | start n =>
      have := (getElem?_scopesAmong_singleton hu).1
      omega
  | under p j n ih =>
      rcases getElem?_scopesDown_under hv with hv | ⟨hi, -⟩
      · rcases getElem?_scopesDown_under hu with hu | ⟨hi, rfl⟩
        · exact ih hv hu
        · -- `u` is the spot itself, and `v` is the last scope above it
          rw [enclosing?_under_eq_getLast?, List.getLast?_eq_getElem?, ← hi]
          exact hv
      · -- nothing stands after the spot itself
        rcases getElem?_scopesDown_under hu with hu | ⟨hi', -⟩
        · have := (List.getElem?_eq_some_iff.1 hu).1
          omega
        · omega

end Spot

/-! ## Making the calls of a walk -/

/-- A session in which nothing has happened yet. -/
def Session.starting (r : Recorder) (h : History) : Session :=
  { history := h, stack := [], recorder := r }

namespace Step

/-- Makes some calls of a walk, one after the other. -/
def makeAll (w : Weights) (outer : List Node) (cs : List Call) : Step Unit :=
  forM cs (Call.perform (enter w outer) leave)

theorem walkFrom_eq_makeAll (w : Weights) (place : Place) :
    walkFrom w place = makeAll w place.above place.node.calls :=
  traverse_eq_forM_calls ..

/-- A call that fails is the last one. -/
theorem final_makeAll_cons (w : Weights) (outer : List Node) (c : Call) (cs : List Call)
    (s : Session) :
    final (makeAll w outer (c :: cs)) s = final (c.perform (enter w outer) leave) s ∨
    final (makeAll w outer (c :: cs)) s =
      final (makeAll w outer cs) (final (c.perform (enter w outer) leave) s) := by
  simp only [final, makeAll, List.forM_cons, EStateM.run_bind]
  cases (c.perform (enter w outer) leave).run s with
  | ok u s₁ => exact Or.inr rfl
  | error e s₁ => exact Or.inl rfl

/-- After a beginning of the calls the session mirrors what has been entered. -/
theorem mirrors_of_run_makeAll {w : Weights} {outer : List Node} {n : Node} {pre post : List Call}
    {cur : Option Spot} {s₀ s : Session} (hstack : s₀.stack = []) (hn : n.calls = pre ++ post)
    (hlead : Leads none pre cur) (hrun : (makeAll w outer pre).run s₀ = .ok () s) :
    Session.Mirrors w outer s₀.scopes (entered pre) (scopesAmong (entered pre)) cur s := by
  refine walk_induct
    (fun es cur s => Session.Mirrors w outer s₀.scopes es (scopesAmong es) cur s) ?_ ?_ ?_ hn hlead
    hrun
  · exact Session.Mirrors.start w outer s₀ hstack
  · intro es rest t s s' hw hmirror hstep
    exact hmirror.enter hw hstep
  · intro es t s s' ht hmirror hstep
    obtain ⟨-, rfl⟩ := EStateM.Result.ok.inj hstep
    exact hmirror.close ht

end Step

/-! ## The stack between two calls -/

namespace Session

/-- The node that opened a scope. -/
def nodeOf? (s : Session) (id : ScopeId) : Option Node := (s.scopes.get? id).map Scope.node

/-- What holds of the stack when the calls `pre` of a walk have been made. Positions count from the
bottom of the stack. -/
structure Disciplined (pre : List Call) (s : Session) : Prop where
  /-- The stack holds the nodes of scope kind that were entered and not yet left. -/
  nodes : s.stack.reverse.map s.nodeOf? = (scopesAmong (unleft pre)).map fun t => some t.node
  /-- No scope is on the stack twice, so one that is taken off it is off it. -/
  distinct : s.stack.Nodup
  /-- A scope is as deep as its position. -/
  depth : ∀ (i : Nat) (id : ScopeId), s.stack.reverse[i]? = some id →
    ∃ scope, s.scopes.get? id = some scope ∧ scope.depth = i
  /-- A scope is the last child of the one under it. -/
  linked : ∀ (i : Nat) (lower upper : ScopeId), s.stack.reverse[i]? = some lower →
    s.stack.reverse[i + 1]? = some upper → (s.scopes.childrenOf lower).getLast? = some upper

theorem Mirrors.disciplined {w : Weights} {outer : List Node} {old : Store} {n : Node}
    {pre post : List Call} {cur : Option Spot} {ss : List Spot} {s : Session}
    (h : Mirrors w outer old (entered pre) ss cur s) (hn : n.calls = pre ++ post)
    (hlead : Leads none pre cur) : s.Disciplined pre := by
  set os := scopesAmong (openFrom cur).reverse with hos
  have hunleft : scopesAmong (unleft pre) = os := by rw [(unleft_eq_of_leads hn hlead).1]
  have hstack : s.stack.reverse = os.map (number old.size ss) := by
    rw [h.stack, hos, scopesAmong, List.filter_reverse, List.map_reverse]
  have hopen : ∀ v ∈ os, v ∈ openFrom cur ∧ v.isScope = true := fun v hv =>
    ⟨List.mem_reverse.1 (mem_scopesAmong.1 hv).1, (mem_scopesAmong.1 hv).2⟩
  have hmem : ∀ v ∈ os, v ∈ ss := fun v hv => h.opened v (hopen v hv).1 (hopen v hv).2
  have hat : ∀ {i : Nat} {id : ScopeId}, s.stack.reverse[i]? = some id →
      ∃ v, os[i]? = some v ∧ number old.size ss v = id := by
    intro i id hid
    rw [hstack, List.getElem?_map] at hid
    exact Option.map_eq_some_iff.1 hid
  -- what stands at a position is known from the way down to the innermost open spot
  have hdepth : ∀ {i : Nat} {v : Spot}, os[i]? = some v → v.depth = i := by
    intro i v hv
    cases cur with
    | none => cases hv
    | some t => exact depth_of_getElem?_scopesDown hv
  have henc : ∀ {i : Nat} {u v : Spot}, os[i]? = some v → os[i + 1]? = some u →
      u.enclosing? = some v := by
    intro i u v hv hu
    cases cur with
    | none => cases hv
    | some t => exact enclosing?_of_getElem?_scopesDown hv hu
  refine ⟨?_, ?_, ?_, ?_⟩
  · rw [hstack, hunleft, List.map_map]
    refine List.map_congr_left fun v hv => ?_
    obtain ⟨own, -, hget⟩ := h.made v (hmem v hv)
    show (s.scopes.get? (number old.size ss v)).map Scope.node = some v.node
    rw [hget]
    rfl
  · have hnodup : os.Nodup := by
      rw [← hunleft]
      have hwalked : (entered pre ++ entered post).Nodup :=
        walked_eq_of_calls_eq hn ▸ Node.walked_nodup n
      exact ((List.nodup_append.1 hwalked).1.filter _).filter _
    have hrev : s.stack.reverse.Nodup := hstack ▸ map_number_nodup hmem hnodup
    exact List.nodup_reverse.1 hrev
  · intro i id hid
    obtain ⟨v, hv, rfl⟩ := hat hid
    obtain ⟨own, -, hget⟩ := h.made v (hmem v (List.mem_of_getElem? hv))
    exact ⟨_, hget, congrArg Nat.cast (hdepth hv)⟩
  · intro i lower upper hlower hupper
    obtain ⟨v, hv, rfl⟩ := hat hlower
    obtain ⟨u, hu, rfl⟩ := hat hupper
    obtain ⟨huopen, huscope⟩ := hopen u (List.mem_of_getElem? hu)
    rw [h.childrenOf_number (hmem v (List.mem_of_getElem? hv)), List.getLast?_map,
      h.last u huopen huscope v (henc hv hu), Option.map_some]

/-! ## What is off the stack stays as it is -/

/-- From `s` to `s'` no scope that is off the stack changes or comes back to it. -/
structure Keeps (s s' : Session) : Prop where
  size : s.scopes.size ≤ s'.scopes.size
  same : ∀ id < s.scopes.size, id ∉ s.stack → s'.scopes.get? id = s.scopes.get? id
  off : ∀ id < s.scopes.size, id ∉ s.stack → id ∉ s'.stack

theorem Keeps.refl (s : Session) : s.Keeps s :=
  ⟨Nat.le_refl _, fun _ _ _ => rfl, fun _ _ h => h⟩

theorem Keeps.trans {s s₁ s₂ : Session} (h : s.Keeps s₁) (h₁ : s₁.Keeps s₂) : s.Keeps s₂ := by
  refine ⟨Nat.le_trans h.size h₁.size, ?_, ?_⟩
  · intro id hlt hoff
    rw [h₁.same id (Nat.lt_of_lt_of_le hlt h.size) (h.off id hlt hoff), h.same id hlt hoff]
  · intro id hlt hoff
    exact h₁.off id (Nat.lt_of_lt_of_le hlt h.size) (h.off id hlt hoff)

end Session

namespace Step

variable (w : Weights) (outer : List Node)

/-- One call keeps what is off the stack, whether it fails or not. -/
theorem keeps_final_perform (c : Call) (s : Session) :
    s.Keeps (final (c.perform (enter w outer) leave) s) := by
  cases c with
  | enter t =>
      obtain ⟨hsize, hsame, hstack⟩ := final_enter_frame w outer t.visit s
      refine ⟨hsize, ?_, ?_⟩
      · intro id hlt hoff
        exact hsame id hlt fun hctx => hoff (List.mem_of_head? hctx)
      · intro id hlt hoff hon
        -- what comes onto the stack is new
        rcases hstack id hon with h | h
        · exact hoff h
        · exact Nat.ne_of_lt hlt h
  | leave t =>
      have hfinal : final (Call.perform (enter w outer) leave (.leave t)) s = s.close t.node := rfl
      have hscopes : (s.close t.node).scopes = s.scopes := by
        rw [Session.scopes, Session.history_close]
      rw [hfinal]
      refine ⟨Nat.le_of_eq (by rw [hscopes]), fun id _ _ => by rw [hscopes], ?_⟩
      intro id _ hoff hon
      exact hoff (Session.mem_stack_of_mem_close hon)

/-- So do any calls, up to the end or to the first that fails. -/
theorem keeps_final_makeAll (cs : List Call) (s : Session) :
    s.Keeps (final (makeAll w outer cs) s) := by
  induction cs generalizing s with
  | nil => exact Session.Keeps.refl s
  | cons c cs ih =>
      have hfirst := keeps_final_perform w outer c s
      rcases final_makeAll_cons w outer c cs s with h | h
      · rw [h]
        exact hfirst
      · rw [h]
        exact hfirst.trans (ih _)

end Step

namespace Analyzer

/-- What the walk of a run leaves behind is all that is left of the run. -/
theorem analyze_some (a : Analyzer) (place : Place) (r : Recorder) (h : History) :
    a.analyze (some place) r h =
      match (Step.walkFrom a.weights place).run (Session.starting r h) with
      | .ok _ s =>
          { analyzer := { a with stack := s.stack, collector := none }
            recorder := s.recorder
            history := s.history
            failure := none }
      | .error e s =>
          { analyzer := { a with stack := s.stack, collector := none }
            recorder := s.recorder
            history := s.history
            failure := some e } := rfl

theorem analyze_eq_final (a : Analyzer) (place : Place) (r : Recorder) (h : History) :
    (a.analyze (some place) r h).history =
      (Step.final (Step.makeAll a.weights place.above place.node.calls)
        (Session.starting r h)).history ∧
    (a.analyze (some place) r h).analyzer.stack =
      (Step.final (Step.makeAll a.weights place.above place.node.calls)
        (Session.starting r h)).stack := by
  rw [← Step.walkFrom_eq_makeAll, analyze_some, Step.final]
  cases (Step.walkFrom a.weights place).run (Session.starting r h) with
  | ok u s => exact ⟨rfl, rfl⟩
  | error e s => exact ⟨rfl, rfl⟩

/-- **The discipline of the stack.** A run makes the calls of the walk, and stops early only if one
of them fails. At every point between two calls that it reaches,

* the stack is disciplined;
* entering a node changes no scope but the innermost, whether it fails or not;
* leaving a node changes no scope, and takes the innermost off the stack exactly if that node opened
  a scope;
* whatever calls follow, a scope that is off the stack does not change any more. -/
theorem stack_discipline (a : Analyzer) (place : Place) (r : Recorder) (h : History) :
    ((a.analyze (some place) r h).history =
        (Step.final (Step.makeAll a.weights place.above place.node.calls)
          (Session.starting r h)).history ∧
      (a.analyze (some place) r h).analyzer.stack =
        (Step.final (Step.makeAll a.weights place.above place.node.calls)
          (Session.starting r h)).stack) ∧
    ∀ (pre post : List Call) (s : Session), place.node.calls = pre ++ post →
      (Step.makeAll a.weights place.above pre).run (Session.starting r h) = .ok () s →
      s.Disciplined pre ∧
      (∀ t rest, post = .enter t :: rest → ∀ id < s.scopes.size, s.context? ≠ some id →
        (Step.final (Step.enter a.weights place.above t.visit) s).scopes.get? id =
          s.scopes.get? id) ∧
      (∀ t rest, post = .leave t :: rest → Step.final (Step.leave t.visit) s =
        if t.isScope = true then { s with stack := s.stack.tail } else s) ∧
      (∀ mid rest, post = mid ++ rest → ∀ id < s.scopes.size, id ∉ s.stack →
        (Step.final (Step.makeAll a.weights place.above mid) s).scopes.get? id =
          s.scopes.get? id) := by
  refine ⟨a.analyze_eq_final place r h, ?_⟩
  intro pre post s hn hrun
  obtain ⟨cur, hlead, hrest⟩ := exists_leads_of_calls_eq hn
  have hmirror := Step.mirrors_of_run_makeAll rfl hn hlead hrun
  refine ⟨hmirror.disciplined hn hlead, ?_, ?_, ?_⟩
  · intro t rest _ id hlt hctx
    exact (Step.final_enter_frame a.weights place.above t.visit s).2.1 id hlt hctx
  · rintro t rest rfl
    -- the walk is where `t` is the innermost open spot
    obtain ⟨rfl, -⟩ := hrest
    exact hmirror.close_eq (mem_walked_of_leave hn)
  · intro mid rest _ id hlt hoff
    exact (Step.keeps_final_makeAll a.weights place.above mid s).same id hlt hoff

/-- In the sample the program and the function are on the stack when the `if` has been entered. -/
theorem stack_sampleTree :
    ∃ s, (Step.makeAll Weights.default [] (sampleTree.calls.take 3)).run
        (Session.starting Recorder.unlimited {}) = .ok () s ∧
      s.stack = [1, 0] ∧ s.Disciplined (sampleTree.calls.take 3) := by
  have hreach : ∃ s, (Step.makeAll Weights.default [] (sampleTree.calls.take 3)).run
      (Session.starting Recorder.unlimited {}) = .ok () s ∧ s.stack = [1, 0] := ⟨_, rfl, rfl⟩
  obtain ⟨s, hrun, hstack⟩ := hreach
  obtain ⟨-, hall⟩ := stack_discipline {} (Place.top sampleTree) Recorder.unlimited {}
  exact ⟨s, hrun, hstack, (hall _ _ s (List.take_append_drop 3 _).symm hrun).1⟩

end Analyzer

end ScopeScore
