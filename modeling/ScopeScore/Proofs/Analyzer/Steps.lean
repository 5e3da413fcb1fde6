import ScopeScore.Analyzer.Basic
import ScopeScore.Proofs.Analyzer.Charge
import Mathlib.Tactic.Set

set_option autoImplicit false

/-! # What the visitors of an analysis do

Entering a node charges it to the innermost scope and may then open a scope; leaving a node may
close one. This module says once what each of these does to a session, so that no later proof looks
into them:

* `chargeAll_eq_ok_iff`: charging succeeds exactly if the additions do, and changes nothing but the
  penalty of the innermost scope;
* `enter_eq_ok_iff_of_scope`, `enter_eq_ok_iff_of_not_scope`: how a node is entered without a
  failure;
* `final_enter_frame`: what entering a node leaves alone, also when it fails.
-/

namespace ScopeScore

namespace Store

/-- A store is known from its scopes. -/
theorem ext_get? {s t : Store} (h : ∀ id, s.get? id = t.get? id) : s = t := by
  have hext : s.scopes = t.scopes := Array.ext_getElem? h
  cases s
  exact congrArg Store.mk hext

/-- Putting a scope's own penalty back changes nothing. -/
theorem modify_eq_self {s : Store} {id : ScopeId} {scope : Scope} {f : Scope → Scope}
    (hg : s.get? id = some scope) (hf : f scope = scope) : s.modify id f = s := by
  refine ext_get? fun i => ?_
  rw [get?_modify]
  by_cases h : i = id
  · rw [if_pos h, h, hg, Option.map_some, hf]
  · rw [if_neg h]

theorem modify_modify (s : Store) (id : ScopeId) (f g : Scope → Scope) :
    (s.modify id f).modify id g = s.modify id (g ∘ f) := by
  refine ext_get? fun i => ?_
  rw [get?_modify, get?_modify, get?_modify, get?_modify]
  by_cases h : i = id <;> simp [h]

end Store

namespace Session

/-- The scopes of a session, by number. -/
abbrev scopes (s : Session) : Store := s.history.scopes

/-- The session in which a scope has another penalty of its own. -/
def setOwn (s : Session) (id : ScopeId) (own : Amount) : Session :=
  { s with history.scopes := s.scopes.modify id fun scope => { scope with own := own } }

@[simp]
theorem size_scopes_setOwn (s : Session) (id : ScopeId) (own : Amount) :
    (s.setOwn id own).scopes.size = s.scopes.size := Store.size_modify ..

theorem get?_setOwn (s : Session) (id other : ScopeId) (own : Amount) :
    (s.setOwn id own).scopes.get? other =
      if other = id then (s.scopes.get? id).map fun scope => { scope with own := own }
      else s.scopes.get? other :=
  Store.get?_modify ..

theorem setOwn_self {s : Session} {id : ScopeId} {scope : Scope}
    (hg : s.scopes.get? id = some scope) : s.setOwn id scope.own = s := by
  have h := Store.modify_eq_self (f := fun x => { x with own := scope.own }) hg rfl
  cases s
  simp only [setOwn, scopes] at h ⊢
  rw [h]

theorem setOwn_setOwn (s : Session) (id : ScopeId) (a b : Amount) :
    (s.setOwn id a).setOwn id b = s.setOwn id b := by
  have h := Store.modify_modify s.scopes id (fun x => { x with own := a })
    (fun x => { x with own := b })
  simp only [setOwn, scopes] at h ⊢
  rw [h]
  rfl

/-! ## Charging -/

theorem charge_of_context {s : Session} {id : ScopeId} {scope : Scope} (a : Amount)
    (hc : s.context? = some id) (hg : s.scopes.get? id = some scope) :
    s.charge a = (scope.own.add a).map (s.setOwn id) := by
  have hs : s.history.scopes.get? id = some scope := hg
  simp only [charge, hc, Store.charge, hs]
  cases scope.own.add a <;> rfl

theorem charge_of_no_context {s : Session} (a : Amount) (hc : s.context? = none) :
    s.charge a = .ok s := by
  simp [charge, hc]

end Session

namespace Step

/-- Charges some amounts to the innermost scope, one by one. -/
def chargeAll (as : List Amount) : Step Unit := forM as fun a => attempt (Session.charge · a)

theorem run_attempt (f : Session → Except Failure Session) (s : Session) :
    (attempt f).run s =
      match f s with
      | .ok s' => .ok () s'
      | .error e => .error e s := rfl

theorem run_chargeAll_cons (a : Amount) (as : List Amount) (s : Session) :
    (chargeAll (a :: as)).run s =
      match s.charge a with
      | .ok s' => (chargeAll as).run s'
      | .error e => .error e s := by
  rw [chargeAll, List.forM_cons, EStateM.run_bind, run_attempt]
  cases s.charge a <;> rfl

/-- Outside every scope charges are dropped. -/
theorem chargeAll_of_no_context (as : List Amount) {s : Session} (hc : s.context? = none) :
    (chargeAll as).run s = .ok () s := by
  induction as with
  | nil => rfl
  | cons a as ih =>
      rw [run_chargeAll_cons, Session.charge_of_no_context a hc]
      exact ih

/-- Charging succeeds exactly if the additions do, and changes the penalty of the innermost scope
only. -/
theorem chargeAll_eq_ok_iff {as : List Amount} {s s' : Session} {id : ScopeId} {scope : Scope}
    (hc : s.context? = some id) (hg : s.scopes.get? id = some scope) :
    (chargeAll as).run s = .ok () s' ↔
      ∃ own, as.foldlM Amount.add scope.own = .ok own ∧ s' = s.setOwn id own := by
  induction as generalizing s scope with
  | nil =>
      have hnil : (chargeAll []).run s = .ok () s := rfl
      simp only [hnil, EStateM.Result.ok.injEq, true_and, List.foldlM_nil]
      constructor
      · rintro rfl
        exact ⟨scope.own, rfl, (Session.setOwn_self hg).symm⟩
      · rintro ⟨own, hown, rfl⟩
        obtain rfl : scope.own = own := Except.ok.inj hown
        exact (Session.setOwn_self hg).symm
  | cons a as ih =>
      rw [run_chargeAll_cons, Session.charge_of_context a hc hg, List.foldlM_cons]
      cases hadd : scope.own.add a with
      | error e => simp [Except.map, bind, Except.bind]
      | ok b =>
          -- the other amounts go to the same scope, which now holds `b`
          have hc' : (s.setOwn id b).context? = some id := hc
          have hg' : (s.setOwn id b).scopes.get? id = some { scope with own := b } := by
            rw [Session.get?_setOwn, if_pos rfl, hg, Option.map_some]
          simp only [Except.map, ih hc' hg', Session.setOwn_setOwn]
          rfl

end Step

/-! ## Opening and closing a scope -/

namespace Session

variable (outer : List Node) (v : Visit)

@[simp]
theorem stack_openScope (s : Session) :
    (s.openScope outer v).stack = s.scopes.next :: s.stack := rfl

/-- The scope that is opened at `v`, before anything falls into it. -/
def fresh (s : Session) : Scope :=
  { node := v.node, parent := namingNode? outer v, depth := s.stack.length }

theorem scopes_openScope (s : Session) :
    (s.openScope outer v).scopes =
      match s.context? with
      | some parent => (s.scopes.insert (s.fresh outer v)).adopt parent s.scopes.next
      | none => s.scopes.insert (s.fresh outer v) := rfl

@[simp]
theorem size_scopes_openScope (s : Session) :
    (s.openScope outer v).scopes.size = s.scopes.size + 1 := by
  rw [scopes_openScope]
  cases s.context? with
  | none => exact Store.size_insert ..
  | some p => simp [Store.adopt]

/-- Opening a scope makes it the last child of the innermost one and changes no other scope. -/
theorem get?_openScope_of_lt {s : Session} {id : ScopeId} (hid : id < s.scopes.size) :
    (s.openScope outer v).scopes.get? id =
      if s.context? = some id then
        (s.scopes.get? id).map fun scope =>
          { scope with children := scope.children ++ [s.scopes.next] }
      else s.scopes.get? id := by
  have hne : id ≠ s.scopes.next := Nat.ne_of_lt hid
  rw [scopes_openScope]
  cases hc : s.context? with
  | none => simp [Store.get?_insert, hne]
  | some p =>
      simp only [Store.adopt, Store.get?_modify, Store.get?_insert, if_neg hne,
        Option.some.injEq]
      by_cases hp : id = p
      · subst hp
        simp [hne]
      · simp [hp, Ne.symm hp]

theorem get?_openScope_next {s : Session} (hs : ∀ p, s.context? = some p → p < s.scopes.size) :
    (s.openScope outer v).scopes.get? s.scopes.next = some (s.fresh outer v) := by
  rw [scopes_openScope]
  cases hc : s.context? with
  | none => simp [Store.get?_insert]
  | some p =>
      -- the innermost scope gets a child, but it is another one
      have hne : s.scopes.next ≠ p := fun h => Nat.lt_irrefl p (h ▸ hs p hc)
      simp [Store.adopt, Store.get?_modify, Store.get?_insert, hne]

theorem record_openScope (s : Session) :
    (s.openScope outer v).record =
      (s.recorder.add s.scopes.next).map fun r => { s.openScope outer v with recorder := r } := by
  show (do let r ← s.recorder.add s.scopes.next; return _) = _
  cases s.recorder.add s.scopes.next <;> rfl

theorem history_close (n : Node) (s : Session) : (s.close n).history = s.history := by
  unfold close
  split <;> rfl

theorem recorder_close (n : Node) (s : Session) : (s.close n).recorder = s.recorder := by
  unfold close
  split <;> rfl

theorem mem_stack_of_mem_close {n : Node} {s : Session} {id : ScopeId}
    (h : id ∈ (s.close n).stack) : id ∈ s.stack := by
  unfold close at h
  split at h
  · exact List.mem_of_mem_tail h
  · exact h

end Session

/-! ## The visitors -/

namespace Step

variable {w : Weights} {outer : List Node} {v : Visit}

theorem run_leave (v : Visit) (s : Session) : (leave v).run s = .ok () (s.close v.node) := rfl

theorem run_enter (s : Session) :
    (enter w outer v).run s =
      match (chargeAll (v.node.charge w)).run s with
      | .ok _ s₁ =>
          if v.node.kind.isScope then (attempt Session.record).run (s₁.openScope outer v)
          else .ok () s₁
      | .error e s₁ => .error e s₁ := by
  show EStateM.run (chargeAll (v.node.charge w) >>= fun _ => _) s = _
  rw [EStateM.run_bind]
  cases (chargeAll (v.node.charge w)).run s with
  | error e s₁ => rfl
  | ok u s₁ => cases v.node.kind.isScope <;> rfl

/-- How a node that opens no scope is entered. -/
theorem enter_eq_ok_iff_of_not_scope {s s' : Session} (hv : v.node.kind.isScope = false) :
    (enter w outer v).run s = .ok () s' ↔ (chargeAll (v.node.charge w)).run s = .ok () s' := by
  rw [run_enter]
  cases (chargeAll (v.node.charge w)).run s with
  | error e s₁ => simp
  | ok u s₁ => simp [hv]

/-- How a node that opens a scope is entered. -/
theorem enter_eq_ok_iff_of_scope {s s' : Session} (hv : v.node.kind.isScope = true) :
    (enter w outer v).run s = .ok () s' ↔
      ∃ s₁ r, (chargeAll (v.node.charge w)).run s = .ok () s₁ ∧
        s₁.recorder.add s₁.scopes.next = .ok r ∧
        s' = { s₁.openScope outer v with recorder := r } := by
  rw [run_enter]
  cases (chargeAll (v.node.charge w)).run s with
  | error e s₁ => simp
  | ok u s₁ =>
      simp only [hv, if_true, run_attempt, Session.record_openScope]
      cases hr : s₁.recorder.add s₁.scopes.next with
      | error e => simp [Except.map, hr]
      | ok r => simp [Except.map, hr, eq_comm]

/-! ## What the visitors leave alone -/

/-- The session that a step leaves behind, whether it fails or not. -/
def final (x : Step Unit) (s : Session) : Session :=
  match x.run s with
  | .ok _ s' => s'
  | .error _ s' => s'

/-- Charging touches the penalty of the innermost scope, at most. -/
theorem final_chargeAll (as : List Amount) (s : Session) :
    final (chargeAll as) s = s ∨
      ∃ id own, s.context? = some id ∧ final (chargeAll as) s = s.setOwn id own := by
  induction as generalizing s with
  | nil => exact Or.inl rfl
  | cons a as ih =>
      have hfinal : final (chargeAll (a :: as)) s =
          match s.charge a with
          | .ok s' => final (chargeAll as) s'
          | .error _ => s := by
        simp only [final, run_chargeAll_cons]
        cases s.charge a <;> rfl
      rw [hfinal]
      cases hc : s.context? with
      | none =>
          rw [Session.charge_of_no_context a hc]
          simpa [hc] using ih s
      | some id =>
          cases hg : s.scopes.get? id with
          | none =>
              -- a number without a scope: nothing is charged
              have hkeep : s.charge a = .ok s := by
                have hg' : s.history.scopes.get? id = none := hg
                simp only [Session.charge, hc, Store.charge, hg']
                rfl
              rw [hkeep]
              simpa [hc] using ih s
          | some scope =>
              rw [Session.charge_of_context a hc hg]
              cases scope.own.add a with
              | error e => exact Or.inl rfl
              | ok b =>
                  refine Or.inr ⟨id, ?_⟩
                  rcases ih (s.setOwn id b) with h | ⟨id', own, hid, h⟩
                  · exact ⟨b, rfl, h⟩
                  · obtain rfl : id = id' := Option.some.inj (hc.symm.trans hid)
                    exact ⟨own, rfl, h.trans (Session.setOwn_setOwn s id b own)⟩

/-- What entering a node leaves behind: the charges alone, or also a new scope, of which the recorder
may have been told. -/
theorem final_enter_cases (w : Weights) (outer : List Node) (v : Visit) (s : Session) :
    final (enter w outer v) s = final (chargeAll (v.node.charge w)) s ∨
      ∃ r, final (enter w outer v) s =
          { (final (chargeAll (v.node.charge w)) s).openScope outer v with recorder := r } ∧
        (r = (final (chargeAll (v.node.charge w)) s).recorder ∨
          (final (chargeAll (v.node.charge w)) s).recorder.add
            (final (chargeAll (v.node.charge w)) s).scopes.next = .ok r) := by
  simp only [final, run_enter]
  cases hrun : (chargeAll (v.node.charge w)).run s with
  | error e s₁ => exact Or.inl rfl
  | ok u s₁ =>
      cases v.node.kind.isScope with
      | false => exact Or.inl rfl
      | true =>
          right
          simp only [if_true, run_attempt, Session.record_openScope]
          cases hadd : s₁.recorder.add s₁.scopes.next with
          | error e => exact ⟨s₁.recorder, rfl, Or.inl rfl⟩
          | ok r => exact ⟨r, rfl, Or.inr rfl⟩

/-- **Entering a node changes no scope but the innermost**, and puts none on the stack that was
there before, whether it fails or not. -/
theorem final_enter_frame (w : Weights) (outer : List Node) (v : Visit) (s : Session) :
    s.scopes.size ≤ (final (enter w outer v) s).scopes.size ∧
      (∀ id < s.scopes.size, s.context? ≠ some id →
        (final (enter w outer v) s).scopes.get? id = s.scopes.get? id) ∧
      ∀ id ∈ (final (enter w outer v) s).stack, id ∈ s.stack ∨ id = s.scopes.size := by
  -- what charging alone leaves alone
  have hcharge : (final (chargeAll (v.node.charge w)) s).scopes.size = s.scopes.size ∧
      (∀ id, s.context? ≠ some id →
        (final (chargeAll (v.node.charge w)) s).scopes.get? id = s.scopes.get? id) ∧
      (final (chargeAll (v.node.charge w)) s).stack = s.stack := by
    rcases final_chargeAll (v.node.charge w) s with h | ⟨top, own, hc, h⟩
    · rw [h]
      exact ⟨rfl, fun _ _ => rfl, rfl⟩
    · rw [h]
      refine ⟨Session.size_scopes_setOwn .., ?_, rfl⟩
      intro id hid
      have hne : id ≠ top := fun e => hid (e ▸ hc)
      rw [Session.get?_setOwn, if_neg hne]
  obtain ⟨hsize, hget, hstack⟩ := hcharge
  rcases final_enter_cases w outer v s with h | ⟨r, h, -⟩
  · rw [h]
    exact ⟨Nat.le_of_eq hsize.symm, fun id _ hid => hget id hid,
      fun id hid => Or.inl (hstack ▸ hid)⟩
  · rw [h]
    set s₁ := final (chargeAll (v.node.charge w)) s with hs₁
    have hctx : s₁.context? = s.context? := by simp only [Session.context?, hstack]
    refine ⟨?_, ?_, ?_⟩
    · show s.scopes.size ≤ (s₁.openScope outer v).scopes.size
      rw [Session.size_scopes_openScope, hsize]
      exact Nat.le_succ _
    · intro id hlt hid
      show (s₁.openScope outer v).scopes.get? id = _
      rw [Session.get?_openScope_of_lt outer v (hsize ▸ hlt), hctx, if_neg hid, hget id hid]
    · intro id hid
      rcases List.mem_cons.1 hid with rfl | hid
      · exact Or.inr hsize
      · exact Or.inl (hstack ▸ hid)

end Step

end ScopeScore
