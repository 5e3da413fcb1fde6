import Mathlib.Data.List.Forall2

set_option autoImplicit false

/-! # Along a list until the first failure

A function that may fail is mapped along a list until it fails. All its results come back, each for
its own element (`forall₂_of_mapM_eq_ok`), if there is one for every element
(`exists_mapM_eq_ok`). Otherwise the first element without one decides, whatever follows
(**`mapM_append_eq_error`**).
-/

namespace ScopeScore

variable {α β γ ε : Type} {f : α → Except ε β} {xs : List α}

theorem mapM_map_eq_ok {f : β → Except ε γ} {k : α → β} {g : α → γ}
    (h : ∀ x ∈ xs, f (k x) = .ok (g x)) : (xs.map k).mapM f = .ok (xs.map g) := by
  induction xs with
  | nil => rfl
  | cons x xs ih =>
      rw [List.map_cons, List.mapM_cons, h x List.mem_cons_self,
        ih fun y hy => h y (List.mem_cons_of_mem x hy)]
      rfl

theorem exists_mapM_eq_ok (h : ∀ x ∈ xs, ∃ y, f x = .ok y) : ∃ ys, xs.mapM f = .ok ys := by
  induction xs with
  | nil => exact ⟨[], rfl⟩
  | cons x xs ih =>
      obtain ⟨y, hy⟩ := h x List.mem_cons_self
      obtain ⟨ys, hys⟩ := ih fun z hz => h z (List.mem_cons_of_mem x hz)
      refine ⟨y :: ys, ?_⟩
      rw [List.mapM_cons, hy, hys]
      rfl

theorem forall₂_of_mapM_eq_ok {ys : List β} (h : xs.mapM f = .ok ys) :
    List.Forall₂ (fun x y => f x = .ok y) xs ys := by
  induction xs generalizing ys with
  | nil =>
      obtain rfl := Except.ok.inj h
      exact .nil
  | cons x xs ih =>
      rw [List.mapM_cons] at h
      cases hx : f x with
      | error e =>
          rw [hx] at h
          cases h
      | ok y =>
          cases hrest : xs.mapM f with
          | error e =>
              rw [hx, hrest] at h
              cases h
          | ok rest =>
              rw [hx, hrest] at h
              obtain rfl := Except.ok.inj h
              exact .cons hx (ih hrest)

/-- The results are those of the elements. -/
theorem mem_iff_of_mapM_eq_ok {ys : List β} (h : xs.mapM f = .ok ys) {y : β} :
    y ∈ ys ↔ ∃ x ∈ xs, f x = .ok y := by
  have hall := forall₂_of_mapM_eq_ok h
  clear h
  induction hall with
  | nil => simp
  | cons hx _ ih =>
      simp [ih, hx, eq_comm]

/-- **The first element without a result decides.** -/
theorem mapM_append_eq_error {before : List α} (hbefore : ∀ x ∈ before, ∃ y, f x = .ok y) {x : α}
    {e : ε} (hx : f x = .error e) (after : List α) :
    (before ++ x :: after).mapM f = .error e := by
  obtain ⟨ys, hys⟩ := exists_mapM_eq_ok hbefore
  rw [List.mapM_append, hys, List.mapM_cons, hx]
  rfl

theorem exists_first_of_not_forall {P : α → Prop} (h : ¬ ∀ x ∈ xs, P x) :
    ∃ before x after, xs = before ++ x :: after ∧ (∀ y ∈ before, P y) ∧ ¬ P x := by
  induction xs with
  | nil => simp at h
  | cons x xs ih =>
      by_cases hx : P x
      · have hrest : ¬ ∀ y ∈ xs, P y := fun hall => h (by simpa [hx] using hall)
        obtain ⟨before, y, after, rfl, hbefore, hy⟩ := ih hrest
        exact ⟨x :: before, y, after, rfl, by simpa [hx] using hbefore, hy⟩
      · exact ⟨[], x, xs, rfl, by simp, hx⟩

/-- A failure is that of some element. -/
theorem exists_of_mapM_eq_error {e : ε} (h : xs.mapM f = .error e) :
    ∃ x ∈ xs, f x = .error e := by
  have hnot : ¬ ∀ x ∈ xs, ∃ y, f x = .ok y := by
    intro hall
    obtain ⟨ys, hys⟩ := exists_mapM_eq_ok hall
    rw [hys] at h
    cases h
  obtain ⟨before, x, after, rfl, hbefore, hx⟩ := exists_first_of_not_forall hnot
  refine ⟨x, by simp, ?_⟩
  cases hfx : f x with
  | ok y => exact absurd ⟨y, hfx⟩ hx
  | error e' =>
      rw [mapM_append_eq_error hbefore hfx, Except.error.injEq] at h
      rw [h]

end ScopeScore
