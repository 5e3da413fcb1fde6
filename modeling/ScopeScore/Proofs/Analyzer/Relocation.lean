import ScopeScore.Proofs.Analyzer.Forest
import ScopeScore.Scope.Record

set_option autoImplicit false

/-! # Runs beside earlier runs

A run begins with an empty stack, so it never meets a scope of an earlier run; all it can notice of
them is that their numbers are taken and that the recorder holds some of them. So it does what it
would have done alone, with all numbers moved up.

* `Store.after`: the scopes of one store behind those of another, their numbers moved up;
  `Session.after` is the same for the state of a walk.
* `Step.Relocates`: a step does the same to a session behind earlier runs as to the session alone,
  whether it fails or not. Both visitors do, and therefore a whole walk does.

**`Analyzer.analyze_after`** puts this together for one run.
-/

namespace ScopeScore

/-- The scope with the numbers of its children moved up by `base`. -/
def Scope.shift (base : ScopeId) (s : Scope) : Scope :=
  { s with children := s.children.map (base + ·) }

/-! ## Stores -/

namespace Store

variable (s old : Store)

/-- The scopes of `old` and, behind them, those of `s`. -/
def after : Store := { scopes := old.scopes ++ s.scopes.map (Scope.shift old.size) }

@[simp]
theorem size_after : (s.after old).size = old.size + s.size := by
  simp [after, size]

theorem get?_after_of_lt {id : ScopeId} (h : id < old.size) :
    (s.after old).get? id = old.get? id :=
  Array.getElem?_append_left h

theorem get?_after_add (id : ScopeId) :
    (s.after old).get? (old.size + id) = (s.get? id).map (Scope.shift old.size) := by
  have hle : old.scopes.size ≤ old.size + id := Nat.le_add_right ..
  simp only [after, get?, Array.getElem?_append_right hle, Array.getElem?_map]
  simp [size]

theorem next_after : (s.after old).next = old.size + s.next := size_after s old

/-- A store behind `old` is known from its own scopes. -/
theorem eq_after {t : Store} (hlow : ∀ id < old.size, t.get? id = old.get? id)
    (hhigh : ∀ id, t.get? (old.size + id) = (s.get? id).map (Scope.shift old.size)) :
    t = s.after old := by
  refine ext_get? fun id => ?_
  rcases Nat.lt_or_ge id old.size with h | h
  · rw [hlow id h, get?_after_of_lt s old h]
  · obtain ⟨j, rfl⟩ := Nat.exists_eq_add_of_le h
    rw [hhigh j, get?_after_add]

theorem insert_after (scope : Scope) :
    (s.after old).insert (scope.shift old.size) = (s.insert scope).after old := by
  refine eq_after _ _ ?_ ?_
  · intro id hid
    have hne : id ≠ (s.after old).next := by
      rw [next_after]
      omega
    rw [get?_insert, if_neg hne, get?_after_of_lt s old hid]
  · intro id
    rw [get?_insert, get?_insert, next_after, get?_after_add]
    by_cases h : id = s.next
    · simp [h]
    · have hne : old.size + id ≠ old.size + s.next := fun e => h (Nat.add_left_cancel e)
      rw [if_neg h, if_neg hne]

theorem modify_after {f g : Scope → Scope}
    (hfg : ∀ scope : Scope, g (scope.shift old.size) = (f scope).shift old.size) (id : ScopeId) :
    (s.after old).modify (old.size + id) g = (s.modify id f).after old := by
  refine eq_after _ _ ?_ ?_
  · intro i hi
    have hne : i ≠ old.size + id := by omega
    rw [get?_modify, if_neg hne, get?_after_of_lt s old hi]
  · intro i
    rw [get?_modify, get?_modify, get?_after_add, get?_after_add]
    by_cases h : i = id
    · subst h
      rw [if_pos rfl, if_pos rfl, Option.map_map, Option.map_map]
      exact congrArg (Option.map · (s.get? i)) (funext hfg)
    · have hne : old.size + i ≠ old.size + id := fun e => h (Nat.add_left_cancel e)
      rw [if_neg h, if_neg hne]

theorem charge_after (id : ScopeId) (a : Amount) :
    (s.after old).charge (old.size + id) a = (s.charge id a).map (after · old) := by
  cases hget : s.get? id with
  | none =>
      simp only [charge, get?_after_add, hget]
      rfl
  | some scope =>
      have hown : (scope.shift old.size).own = scope.own := rfl
      simp only [charge, get?_after_add, hget, Option.map_some, hown]
      cases scope.own.add a with
      | error e => rfl
      | ok own =>
          refine congrArg Except.ok ?_
          exact modify_after s old (f := fun scope => { scope with own := own }) (fun _ => rfl) id

theorem adopt_after (parent child : ScopeId) :
    (s.after old).adopt (old.size + parent) (old.size + child) = (s.adopt parent child).after old := by
  refine modify_after s old ?_ parent
  intro scope
  simp [Scope.shift]

theorem signature_after (id : ScopeId) :
    (s.after old).signature (old.size + id) = s.signature id := by
  rw [signature, signature, get?_after_add]
  cases s.get? id <;> rfl

theorem scoreWithin_after (bound : Nat) (id : ScopeId) :
    (s.after old).scoreWithin bound (old.size + id) = s.scoreWithin bound id := by
  induction bound generalizing id with
  | zero => rfl
  | succ bound ih =>
      cases hget : s.get? id with
      | none => simp only [scoreWithin, get?_after_add, hget, Option.map_none]
      | some scope =>
          have hinner : Amount.sumOf ((s.after old).scoreWithin bound)
              (scope.children.map (old.size + ·)) =
                Amount.sumOf (s.scoreWithin bound) scope.children := by
            rw [Amount.sumOf_map]
            simp only [ih]
          simp only [scoreWithin, get?_after_add, hget, Option.map_some, Scope.shift, hinner]

theorem score_after {s : Store} (hs : s.IsForest) (old : Store) {id : Nat} (hid : id < s.size) :
    (s.after old).score (old.size + id) = s.score id := by
  rw [score, size_after, scoreWithin_after]
  exact hs.scoreWithin_eq_scoreWithin _ _ id hid (by omega) (by omega)

end Store

/-! ## Sessions -/

namespace Recorder

/-- A recorder that holds nothing, may take as much as `r` may still take, and refuses more for the
same cause. -/
def remaining (r : Recorder) : Recorder :=
  { r with limit := r.limit.map (· - r.records.length), records := [] }

/-- How many scopes a recorder takes, and for which cause it refuses others. -/
def terms (r : Recorder) : Option Nat × Failure := (r.limit, r.refusal)

end Recorder

namespace Session

variable (h : History) (r : Recorder)

/-- The session behind earlier runs, which left the history `h` and the recorder `r`. -/
def after (s : Session) : Session where
  history := { scopes := s.scopes.after h.scopes, log := h.log ++ s.history.log }
  stack := s.stack.map (h.scopes.size + ·)
  recorder := r.holding (s.recorder.records.map (h.scopes.size + ·))

theorem starting_after : (starting r.remaining {}).after h r = starting r h := by
  have hscopes : ({} : Store).after h.scopes = h.scopes := by
    cases h.scopes
    simp [Store.after]
  cases h
  simp only [after, starting, Recorder.remaining, Recorder.holding, List.map_nil, List.append_nil]
  simp only [scopes] at hscopes ⊢
  rw [hscopes]
  simp

theorem context?_after (s : Session) :
    (s.after h r).context? = s.context?.map (h.scopes.size + ·) := List.head?_map ..

theorem charge_after (a : Amount) (s : Session) :
    (s.after h r).charge a = (s.charge a).map (after h r) := by
  simp only [charge, context?_after]
  cases s.context? with
  | none => rfl
  | some id =>
      have hcharge : (s.after h r).history.scopes.charge (h.scopes.size + id) a =
          (s.scopes.charge id a).map (Store.after · h.scopes) := Store.charge_after ..
      simp only [Option.map_some, hcharge]
      cases s.scopes.charge id a <;> rfl

theorem openScope_after (outer : List Node) (v : Visit) (s : Session) :
    (s.after h r).openScope outer v = (s.openScope outer v).after h r := by
  have hnext : (s.after h r).scopes.next = h.scopes.size + s.scopes.next := Store.next_after ..
  have hfresh : (s.after h r).fresh outer v = (s.fresh outer v).shift h.scopes.size := by
    simp [fresh, Scope.shift, after]
  have hscopes : ((s.after h r).openScope outer v).scopes =
      (s.openScope outer v).scopes.after h.scopes := by
    have hinsert : (s.after h r).scopes.insert ((s.fresh outer v).shift h.scopes.size) =
        (s.scopes.insert (s.fresh outer v)).after h.scopes := Store.insert_after ..
    rw [scopes_openScope, scopes_openScope, context?_after, hnext, hfresh, hinsert]
    cases s.context? with
    | none => rfl
    | some p => exact Store.adopt_after ..
  have hlog : ((s.after h r).openScope outer v).history.log =
      h.log ++ (s.openScope outer v).history.log := by
    simp [openScope, History.tell, after]
  have hstack : ((s.after h r).openScope outer v).stack =
      (s.openScope outer v).stack.map (h.scopes.size + ·) := by
    rw [stack_openScope, stack_openScope, hnext]
    rfl
  have hhistory : ((s.after h r).openScope outer v).history =
      { scopes := (s.openScope outer v).scopes.after h.scopes
        log := h.log ++ (s.openScope outer v).history.log } := by
    rw [← hscopes, ← hlog]
  show Session.mk _ _ _ = Session.mk _ _ _
  rw [Session.mk.injEq]
  exact ⟨hhistory, hstack, rfl⟩

theorem close_after (n : Node) (s : Session) :
    (s.after h r).close n = (s.close n).after h r := by
  have hnode : (s.after h r).contextNode? = s.contextNode? := by
    simp only [contextNode?, context?_after]
    cases s.context? with
    | none => rfl
    | some id =>
        have hget : (s.after h r).history.scopes.get? (h.scopes.size + id) =
            (s.scopes.get? id).map (Scope.shift h.scopes.size) := Store.get?_after_add ..
        simp only [Option.map_some, Option.bind_some, hget, Option.map_map]
        rfl
  simp only [close, hnode]
  by_cases hn : s.contextNode? = some n
  · rw [if_pos hn, if_pos hn]
    simp [after, List.map_tail]
  · rw [if_neg hn, if_neg hn]

/-- The recorder refuses a scope behind earlier runs exactly if the one with the same room left
refuses it. -/
theorem record_after {s : Session} (hs : s.recorder.terms = r.remaining.terms) :
    (s.after h r).record = s.record.map (after h r) := by
  obtain ⟨hlimit, hrefusal⟩ := Prod.mk.inj hs
  have hfull : (s.after h r).recorder.isFull = s.recorder.isFull := by
    simp only [after, Recorder.isFull, Recorder.holding, hlimit, Recorder.remaining]
    cases r.limit with
    | none => rfl
    | some l =>
        simp only [Option.map_some, Option.any_some, List.length_append, List.length_map]
        rw [decide_eq_decide]
        omega
  simp only [record, context?_after]
  cases s.context? with
  | none => rfl
  | some id =>
      simp only [Option.map_some, Recorder.add, hfull, hrefusal]
      cases s.recorder.isFull with
      | true => rfl
      | false =>
          simp [Except.map, bind, Except.bind, pure, Except.pure, after, Recorder.holding]

end Session
/-! ## Steps -/

namespace Step

variable {h : History} {r : Recorder}

/-- A result whose session is put behind earlier runs. -/
def resultAfter (h : History) (r : Recorder) :
    EStateM.Result Failure Session Unit → EStateM.Result Failure Session Unit
  | .ok u s => .ok u (s.after h r)
  | .error e s => .error e (s.after h r)

/-- The step does to a session behind earlier runs what it does to the session alone. It keeps the
terms of the recorder, so that the same can be said of the steps after it. -/
def Relocates (h : History) (r : Recorder) (x : Step Unit) : Prop :=
  ∀ s, s.recorder.terms = r.remaining.terms →
    x.run (s.after h r) = resultAfter h r (x.run s) ∧
    (final x s).recorder.terms = r.remaining.terms

theorem relocates_pure : Relocates h r (pure ()) := fun _ hs => ⟨rfl, hs⟩

theorem relocates_bind {x y : Step Unit} (hx : Relocates h r x) (hy : Relocates h r y) :
    Relocates h r (x >>= fun _ => y) := by
  intro s hs
  obtain ⟨hrun, hterms⟩ := hx s hs
  simp only [final, EStateM.run_bind] at hterms ⊢
  rw [hrun]
  cases hxs : x.run s with
  | error e s₁ =>
      rw [hxs] at hterms
      exact ⟨rfl, hterms⟩
  | ok u s₁ =>
      rw [hxs] at hterms
      exact hy s₁ hterms

theorem relocates_forM {α : Type} {x : α → Step Unit} (hx : ∀ a, Relocates h r (x a))
    (as : List α) : Relocates h r (forM as x) := by
  induction as with
  | nil => exact relocates_pure
  | cons a as ih =>
      rw [List.forM_cons]
      exact relocates_bind (hx a) ih

theorem relocates_modify {g : Session → Session} (hg : ∀ s, g (s.after h r) = (g s).after h r)
    (hterms : ∀ s, (g s).recorder.terms = s.recorder.terms) : Relocates h r (modify g) := by
  intro s hs
  refine ⟨?_, (hterms s).trans hs⟩
  show EStateM.Result.ok () (g (s.after h r)) = .ok () ((g s).after h r)
  rw [hg]

theorem relocates_attempt {f : Session → Except Failure Session}
    (hf : ∀ s, s.recorder.terms = r.remaining.terms →
      f (s.after h r) = (f s).map (Session.after h r))
    (hterms : ∀ s s', f s = .ok s' → s'.recorder.terms = s.recorder.terms) :
    Relocates h r (attempt f) := by
  intro s hs
  simp only [final, run_attempt, hf s hs]
  cases hfs : f s with
  | error e => exact ⟨rfl, hs⟩
  | ok s' => exact ⟨rfl, (hterms s s' hfs).trans hs⟩

theorem terms_of_charge {a : Amount} {s s' : Session} (hs : s.charge a = .ok s') :
    s'.recorder.terms = s.recorder.terms := by
  unfold Session.charge at hs
  split at hs
  · rename_i id _
    cases hcharge : s.history.scopes.charge id a with
    | error e =>
        rw [hcharge] at hs
        cases hs
    | ok scopes =>
        rw [hcharge] at hs
        obtain rfl := Except.ok.inj hs
        rfl
  · obtain rfl := Except.ok.inj hs
    rfl

theorem terms_of_record {s s' : Session} (hs : s.record = .ok s') :
    s'.recorder.terms = s.recorder.terms := by
  unfold Session.record at hs
  split at hs
  · rename_i id _
    cases hadd : s.recorder.add id with
    | error e =>
        rw [hadd] at hs
        cases hs
    | ok recorder =>
        rw [hadd] at hs
        obtain rfl := Except.ok.inj hs
        unfold Recorder.add at hadd
        split at hadd
        · cases hadd
        · obtain rfl := Except.ok.inj hadd
          rfl
  · obtain rfl := Except.ok.inj hs
    rfl

theorem relocates_enter (w : Weights) (outer : List Node) (v : Visit) :
    Relocates h r (enter w outer v) := by
  have hcharge : ∀ a, Relocates h r (attempt (Session.charge · a)) := fun a =>
    relocates_attempt (fun s _ => Session.charge_after h r a s) fun _ _ => terms_of_charge
  unfold enter
  refine relocates_bind (relocates_forM hcharge _) ?_
  cases v.node.kind.isScope with
  | false => exact relocates_pure
  | true =>
      refine relocates_bind ?_ ?_
      · exact relocates_modify (fun s => Session.openScope_after h r outer v s) fun _ => rfl
      · exact relocates_attempt (fun _ hs => Session.record_after h r hs) fun _ _ => terms_of_record

theorem relocates_leave (v : Visit) : Relocates h r (leave v) :=
  relocates_modify (fun s => Session.close_after h r v.node s) fun s => by
    rw [Session.recorder_close]

/-- **A whole walk does the same behind earlier runs as alone.** -/
theorem relocates_walkFrom (w : Weights) (place : Place) : Relocates h r (walkFrom w place) := by
  rw [walkFrom_eq_makeAll]
  refine relocates_forM (fun c => ?_) _
  cases c with
  | enter t => exact relocates_enter w place.above t.visit
  | leave t => exact relocates_leave t.visit

end Step

/-! ## Runs -/

/-- A run behind earlier runs, which left the history `h` and the recorder `r`, does what the run
`alone` does with an empty history. Its scopes are those of `alone`, with all numbers moved up. -/
structure Analysis.Repeats (run alone : Analysis) (h : History) (r : Recorder) : Prop where
  failure : run.failure = alone.failure
  recorder : run.recorder = r.holding (alone.recorder.records.map (h.scopes.size + ·))
  stack : run.analyzer.stack = alone.analyzer.stack.map (h.scopes.size + ·)
  log : run.history.log = h.log ++ alone.history.log
  size : run.history.scopes.size = h.scopes.size + alone.history.scopes.size
  scope : ∀ id, run.history.scopes.get? (h.scopes.size + id) =
    (alone.history.scopes.get? id).map (Scope.shift h.scopes.size)
  signature : ∀ id, run.history.scopes.signature (h.scopes.size + id) =
    alone.history.scopes.signature id
  score : ∀ id < alone.history.scopes.size, run.history.scopes.score (h.scopes.size + id) =
    alone.history.scopes.score id

/-- The state in which a run ends. -/
def Analysis.session (run : Analysis) : Session where
  history := run.history
  stack := run.analyzer.stack
  recorder := run.recorder

theorem Analysis.repeats_of_session_eq {run alone : Analysis} {h : History} {r : Recorder}
    (hforest : alone.history.scopes.IsForest) (hfailure : run.failure = alone.failure)
    (hsession : run.session = alone.session.after h r) : run.Repeats alone h r := by
  have hscopes : run.history.scopes = alone.history.scopes.after h.scopes :=
    congrArg Session.scopes hsession
  refine ⟨hfailure, congrArg Session.recorder hsession, congrArg Session.stack hsession,
    congrArg (fun s => s.history.log) hsession, ?_, ?_, ?_, ?_⟩
  · rw [hscopes, Store.size_after]
  · intro id
    rw [hscopes, Store.get?_after_add]
  · intro id
    rw [hscopes, Store.signature_after]
  · intro id hid
    rw [hscopes, Store.score_after hforest h.scopes hid]

/-- **A run does the same behind earlier runs as alone**, with whatever stack the analyzer was left,
and on a recorder with the same room left. -/
theorem Analyzer.analyze_after (a : Analyzer) (tree : Option Place) (r : Recorder) (h : History) :
    (a.analyze tree r h).Repeats
      (({ weights := a.weights } : Analyzer).analyze tree r.remaining {}) h r := by
  have hforest := fun tree => ({ weights := a.weights } : Analyzer).isForest_analyze tree r.remaining
    (h := {}) Store.isForest_empty
  cases tree with
  | none =>
      exact Analysis.repeats_of_session_eq (hforest none) rfl (Session.starting_after h r).symm
  | some place =>
      have hstep : Step.Relocates h r (Step.walkFrom a.weights place) :=
        Step.relocates_walkFrom a.weights place
      have hwalk := (hstep (Session.starting r.remaining {}) rfl).1
      rw [Session.starting_after h r] at hwalk
      have halone := hforest (some place)
      rw [analyze_some] at halone
      rw [analyze_some, analyze_some, hwalk]
      cases hrun : (Step.walkFrom a.weights place).run (Session.starting r.remaining {}) with
      | ok u s =>
          rw [hrun] at halone
          exact Analysis.repeats_of_session_eq halone rfl rfl
      | error e s =>
          rw [hrun] at halone
          exact Analysis.repeats_of_session_eq halone rfl rfl

end ScopeScore
