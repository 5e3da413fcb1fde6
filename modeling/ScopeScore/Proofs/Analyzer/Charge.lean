import ScopeScore.Analyzer.Charge
import Mathlib.Algebra.BigOperators.Group.List.Defs
import Mathlib.Algebra.Ring.Int.Defs

set_option autoImplicit false

/-! # What nodes are charged

The rules of charging as a table over the kinds of nodes (`Node.tariff`), and sums of charges.

* **`Node.penalties_eq_tariff`**: the rules charge a node for what stands in the table.
* `Amount.total` is the sum of some amounts; integers always have one.
-/

namespace ScopeScore

/-! ## The tariff -/

namespace Node

/-- Does a child stand in the field `f`? -/
def Has (n : Node) (f : String) : Prop := ∃ c ∈ n.children, c.label.field = some f

instance (n : Node) (f : String) : Decidable (n.Has f) :=
  inferInstanceAs (Decidable (∃ c ∈ n.children, c.label.field = some f))

theorem isSome_child?_iff (n : Node) (f : String) : (n.child? f).isSome = true ↔ n.Has f := by
  simp [Has, child?, isUnder]

theorem isEmpty_childrenUnder_iff (n : Node) (f : String) :
    (n.childrenUnder f).isEmpty = true ↔ ¬ n.Has f := by
  simp [Has, childrenUnder, isUnder]

/-- What a node is charged for, kind by kind. -/
def tariff (n : Node) : List Category :=
  match n.kind with
  | "function" | "function_declaration" | "function_expression" | "generator_function"
  | "generator_function_declaration" | "method_definition" => [.fn]
  | "call_expression" => [.call]
  | "if_statement" => if n.Has "alternative" then [.branch, .branch] else [.branch]
  | "switch_case" | "switch_default" => if n.Has "body" then [.branch] else [.branchEmpty]
  | "binary_expression" => if n.operator? = some "||" then [.branch] else []
  | "for_in_statement" => if n.operator? = some "in" then [.branch] else []
  | "catch_clause" | "do_statement" | "for_statement" | "ternary_expression"
  | "while_statement" => [.branch]
  | _ => []

theorem tariff_of_isFunction {n : Node} (h : n.kind.isFunction = true) : n.tariff = [.fn] := by
  have hkind : n.kind ∈ Kind.functions := List.contains_iff_mem.1 h
  simp only [Kind.functions, List.mem_cons, List.not_mem_nil, or_false] at hkind
  rcases hkind with h | h | h | h | h | h <;> simp only [tariff, h]

theorem tariff_of_isCase {n : Node} (h : n.kind.isCase = true) :
    n.tariff = if n.Has "body" then [.branch] else [.branchEmpty] := by
  have hkind : n.kind ∈ Kind.cases := List.contains_iff_mem.1 h
  simp only [Kind.cases, List.mem_cons, List.not_mem_nil, or_false] at hkind
  rcases hkind with h | h <;> simp only [tariff, h]

theorem tariff_of_isBranch {n : Node} (h : n.kind.isBranch = true) : n.tariff = [.branch] := by
  have hkind : n.kind ∈ Kind.branches := List.contains_iff_mem.1 h
  simp only [Kind.branches, List.mem_cons, List.not_mem_nil, or_false] at hkind
  rcases hkind with h | h | h | h | h <;> simp only [tariff, h]

/-- **The rules charge a node for what stands in the table.** -/
theorem penalties_eq_tariff (n : Node) : n.penalties = n.tariff := by
  simp only [penalties, beq_iff_eq, isSome_child?_iff, Kind.callExpression, Kind.ifStatement,
    Kind.binaryExpression, Kind.forInStatement]
  by_cases hfunction : n.kind.isFunction = true
  · rw [if_pos hfunction, tariff_of_isFunction hfunction]
  rw [if_neg hfunction]
  by_cases hcall : n.kind = "call_expression"
  · rw [if_pos hcall]
    simp only [tariff, hcall]
  rw [if_neg hcall]
  by_cases hif : n.kind = "if_statement"
  · rw [if_pos hif]
    simp only [tariff, hif]
  rw [if_neg hif]
  by_cases hcase : n.kind.isCase = true
  · rw [if_pos hcase, tariff_of_isCase hcase]
    by_cases hbody : n.Has "body"
    · rw [if_pos hbody, if_neg fun h => (n.isEmpty_childrenUnder_iff _).1 h hbody]
    · rw [if_neg hbody, if_pos ((n.isEmpty_childrenUnder_iff _).2 hbody)]
  rw [if_neg hcase]
  by_cases hbinary : n.kind = "binary_expression"
  · rw [if_pos hbinary]
    simp only [tariff, hbinary]
  rw [if_neg hbinary]
  by_cases hforIn : n.kind = "for_in_statement"
  · rw [if_pos hforIn]
    simp only [tariff, hforIn]
  rw [if_neg hforIn]
  by_cases hbranch : n.kind.isBranch = true
  · rw [if_pos hbranch, tariff_of_isBranch hbranch]
  rw [if_neg hbranch]
  -- the kind stands in no row of the table
  have hnone : ∀ k ∈ Kind.functions ++ Kind.cases ++ Kind.branches, n.kind ≠ k := by
    rintro k hk rfl
    rcases List.mem_append.1 hk with hk | hk
    · rcases List.mem_append.1 hk with hk | hk
      · exact hfunction (List.contains_iff_mem.2 hk)
      · exact hcase (List.contains_iff_mem.2 hk)
    · exact hbranch (List.contains_iff_mem.2 hk)
  unfold tariff
  split <;> rename_i hkind <;>
    first | rfl | contradiction | exact absurd hkind (hnone _ (by decide))

theorem charge_eq_tariff (w : Weights) (n : Node) : n.charge w = n.tariff.map w.get := by
  rw [charge, penalties_eq_tariff]

/-- What a node costs if the categories cost `f`. -/
def cost (f : Category → Int) (n : Node) : Int := (n.tariff.map f).sum

end Node

/-- The default weights are integers. -/
theorem Weights.get_default_int (c : Category) :
    default.get c = .int ((default.get c).int?.getD 0) := by
  cases c <;> rfl

/-! ## Sums -/

theorem sum_flatMap {α : Type} (g : α → List Int) (xs : List α) :
    (xs.flatMap g).sum = (xs.map fun x => (g x).sum).sum := by
  rw [List.flatMap_def, List.sum_flatten, List.map_map]
  rfl

namespace Amount

variable {α β : Type}

/-- The sum of some amounts, from the integer zero and from left to right. -/
def total (as : List Amount) : Except Failure Amount := as.foldlM add zero

/-- If a sum has a value, so has every beginning of it, and the rest starts from there. -/
theorem foldlM_add_append {as bs : List Amount} {a c : Amount} :
    (as ++ bs).foldlM add a = .ok c ↔
      ∃ b, as.foldlM add a = .ok b ∧ bs.foldlM add b = .ok c := by
  rw [List.foldlM_append]
  cases h : as.foldlM add a with
  | ok b => simp [bind, Except.bind]
  | error e => simp [bind, Except.bind]

theorem foldlM_add_ints (xs : List Int) (a : Int) :
    (xs.map int).foldlM add (.int a) = .ok (.int (a + xs.sum)) := by
  induction xs generalizing a with
  | nil =>
      rw [List.sum_nil, Int.add_zero]
      rfl
  | cons x xs ih =>
      rw [List.map_cons, List.foldlM_cons, add_int]
      show (xs.map int).foldlM add (.int (a + x)) = _
      rw [ih, List.sum_cons, Int.add_assoc]

/-- Integers always have a sum. -/
theorem total_ints (xs : List Int) : total (xs.map int) = .ok (.int xs.sum) := by
  rw [total, zero, foldlM_add_ints, Int.zero_add]

theorem sumOf_map (f : β → Except Failure Amount) (k : α → β) (xs : List α) :
    sumOf f (xs.map k) = sumOf (fun x => f (k x)) xs :=
  List.foldlM_map ..

theorem sumOf_ints {f : α → Except Failure Amount} {g : α → Int} {xs : List α}
    (h : ∀ x ∈ xs, f x = .ok (.int (g x))) : sumOf f xs = .ok (.int (xs.map g).sum) := by
  rw [sumOf_int f g xs h, List.sum_eq_foldl]

theorem sumOf_congr {f g : α → Except Failure Amount} {xs : List α} (h : ∀ x ∈ xs, f x = g x) :
    sumOf f xs = sumOf g xs := by
  have start : ∀ a, xs.foldlM (fun (total : Amount) x => do total.add (← f x)) a =
      xs.foldlM (fun (total : Amount) x => do total.add (← g x)) a := by
    induction xs with
    | nil => exact fun _ => rfl
    | cons x xs ih =>
        intro a
        rw [List.foldlM_cons, List.foldlM_cons, h x List.mem_cons_self]
        refine bind_congr fun b => ?_
        exact ih (fun y hy => h y (List.mem_cons_of_mem x hy)) b
  exact start zero

theorem eq_tooLarge_of_toFloat {a : Amount} {e : Failure} (h : a.toFloat = .error e) :
    e = .tooLarge := by
  cases a with
  | real x => cases h
  | int n =>
      unfold toFloat at h
      dsimp only at h
      split at h
      · exact (Except.error.inj h).symm
      · cases h

/-- An addition fails for one cause only. -/
theorem eq_tooLarge_of_add {a b : Amount} {e : Failure} (h : a.add b = .error e) :
    e = .tooLarge := by
  -- unless both are integers, the first of the two that is too large is the cause
  have hfloats : (do return Amount.real ((← a.toFloat) + (← b.toFloat))) =
      (Except.error e : Except Failure Amount) → e = .tooLarge := by
    intro hsum
    cases ha : a.toFloat with
    | error e' =>
        rw [ha] at hsum
        obtain rfl : e' = e := Except.error.inj hsum
        exact eq_tooLarge_of_toFloat ha
    | ok x =>
        cases hb : b.toFloat with
        | error e' =>
            rw [ha, hb] at hsum
            obtain rfl : e' = e := Except.error.inj hsum
            exact eq_tooLarge_of_toFloat hb
        | ok y =>
            rw [ha, hb] at hsum
            cases hsum
  cases a with
  | real x => exact hfloats h
  | int m =>
      cases b with
      | real y => exact hfloats h
      | int n => cases h

/-- A sum fails because one of the amounts does, or because an addition does. -/
theorem sumOf_eq_error {f : α → Except Failure Amount} {xs : List α} {e : Failure}
    (h : sumOf f xs = .error e) : e = .tooLarge ∨ ∃ x ∈ xs, f x = .error e := by
  have start : ∀ a, xs.foldlM (fun (total : Amount) x => do total.add (← f x)) a = .error e →
      e = .tooLarge ∨ ∃ x ∈ xs, f x = .error e := by
    clear h
    induction xs with
    | nil =>
        intro a h
        cases h
    | cons x xs ih =>
        intro a h
        rw [List.foldlM_cons] at h
        cases hx : f x with
        | error e' =>
            rw [hx] at h
            obtain rfl : e' = e := Except.error.inj h
            exact Or.inr ⟨x, List.mem_cons_self, hx⟩
        | ok b =>
            rw [hx] at h
            cases hadd : a.add b with
            | error e' =>
                have hstop : Except.error e' = (Except.error e : Except Failure Amount) := by
                  simpa [bind, Except.bind, hadd] using h
                exact Or.inl (Except.error.inj hstop ▸ eq_tooLarge_of_add hadd)
            | ok c =>
                have hrest : xs.foldlM (fun (total : Amount) x => do total.add (← f x)) c =
                    .error e := by
                  simpa [bind, Except.bind, hadd] using h
                rcases ih c hrest with h' | ⟨y, hy, hfy⟩
                · exact Or.inl h'
                · exact Or.inr ⟨y, List.mem_cons_of_mem x hy, hfy⟩
  exact start zero h

end Amount

end ScopeScore
