import ScopeScore.Proofs.Analyzer.Slice
import ScopeScore.Proofs.Metrics.Totals
import ScopeScore.Proofs.Tree.Notices

set_option autoImplicit false

/-! # Blocks of scopes

The scopes at or below a scope are opened one after the other: they make a block in the order of the
walk, and the scope itself is the first of them. `Spot.span` is the length of the block. So whether
a scope is inside another is known from where they stand (**`Node.mem_above_iff_of_getElem?`**), and
where a block ends is known from the depths: inside they are greater (`Node.depth_lt_of_lt_span`),
and behind it they fall back (`Node.depth_le_of_eq_span`).

* **`Node.enclosing?_eq_iff_of_getElem?`**: depths tell into which scope another falls.
* **`Node.costInside_eq_sum_block`**: the score of a scope is the sum of the own penalties of its
  block.
-/

namespace ScopeScore

open Spot

/-- How many scopes there are at or below the one opened at `v`. -/
def Spot.span (v : Spot) : Nat := v.node.openings.length

namespace Node

variable {n : Node} {u v : Spot} {i j : Nat}

theorem eq_of_getElem?_openings (hi : n.openings[i]? = some v) (hj : n.openings[j]? = some v) :
    i = j := by
  have hlt : i < n.openings.length := (List.getElem?_eq_some_iff.1 hi).1
  exact (List.getElem?_inj hlt n.openings_nodup).1 (hi.trans hj.symm)

/-! ## Where a block stands -/

/-- **The scopes at or below a scope make a block** that begins with it. -/
theorem exists_block (hv : n.openings[i]? = some v) :
    ∃ pre post, InnerWalk n v pre post ∧ (scopesAmong pre).length = i ∧
      n.openings = scopesAmong pre ++ (v.node.openings.map (graft v) ++ scopesAmong post) := by
  have hmem : v ∈ n.openings := List.mem_of_getElem? hv
  have hscope : v.node.kind.isScope = true := (mem_scopesAmong.1 hmem).2
  obtain ⟨pre, post, hinner⟩ := exists_innerWalk (mem_walked_of_mem_openings hmem)
  have hsplit := hinner.openings_eq
  rw [List.append_assoc] at hsplit
  refine ⟨pre, post, hinner, ?_, hsplit⟩
  -- the block begins with the node of `v`, which is `v` in the outer walk
  obtain ⟨rest, hrest⟩ := openings_eq_cons hscope
  have hfirst : n.openings[(scopesAmong pre).length]? = some v := by
    rw [hsplit, List.getElem?_append_right (Nat.le_refl _), Nat.sub_self, hrest]
    rfl
  exact eq_of_getElem?_openings hfirst hv

theorem span_pos (hv : n.openings[i]? = some v) : 0 < v.span := by
  have hmem : v ∈ n.openings := List.mem_of_getElem? hv
  obtain ⟨rest, hrest⟩ := openings_eq_cons (n := v.node) (mem_scopesAmong.1 hmem).2
  rw [span, hrest, List.length_cons]
  omega

theorem mem_upward_iff_of_getElem? (hv : n.openings[i]? = some v) (hu : n.openings[j]? = some u) :
    v ∈ u.upward ↔ i ≤ j ∧ j < i + v.span := by
  obtain ⟨pre, post, hinner, hlength, hsplit⟩ := exists_block hv
  rw [hsplit] at hu
  have hblock : (v.node.openings.map (graft v)).length = v.span := List.length_map ..
  have houtside : ∀ es : List Spot, (∀ x ∈ es, x ∈ pre ++ post) → u ∈ scopesAmong es →
      v ∉ u.upward := fun es hes hmem => hinner.outside u (hes u (mem_scopesAmong.1 hmem).1)
  constructor
  · intro hup
    constructor
    · by_contra hlt
      rw [List.getElem?_append_left (by omega)] at hu
      exact houtside pre (fun x hx => List.mem_append_left _ hx) (List.mem_of_getElem? hu) hup
    · by_contra hge
      rw [List.getElem?_append_right (by omega), List.getElem?_append_right (by omega)] at hu
      exact houtside post (fun x hx => List.mem_append_right _ hx) (List.mem_of_getElem? hu) hup
  · rintro ⟨hle, hlt⟩
    rw [List.getElem?_append_right (by omega), List.getElem?_append_left (by omega)] at hu
    obtain ⟨t, -, rfl⟩ := List.mem_map.1 (List.mem_of_getElem? hu)
    exact mem_upward_graft v t

/-- **Whether a scope is inside another is known from where they stand.** -/
theorem mem_above_iff_of_getElem? (hv : n.openings[i]? = some v) (hu : n.openings[j]? = some u) :
    v ∈ u.above ↔ i < j ∧ j < i + v.span := by
  constructor
  · intro habove
    obtain ⟨hle, hlt⟩ := (mem_upward_iff_of_getElem? hv hu).1 (List.mem_cons_of_mem u habove)
    have hne : i ≠ j := by
      rintro rfl
      rw [Option.some.inj (hv.symm.trans hu)] at habove
      exact not_mem_above_self u habove
    omega
  · rintro ⟨hlt, hspan⟩
    have hup := (mem_upward_iff_of_getElem? hv hu).2 ⟨by omega, hspan⟩
    rcases (mem_upward v u).1 hup with rfl | habove
    · have := eq_of_getElem?_openings hv hu
      omega
    · exact habove

/-! ## Depths along the scopes -/

theorem isScope_of_getElem? (hv : n.openings[i]? = some v) : v.isScope = true :=
  (mem_scopesAmong.1 (List.mem_of_getElem? hv)).2

/-- A scope that is not outermost stands behind the one that it falls into, and is one deeper. -/
theorem exists_enclosing_of_getElem? (hu : n.openings[j]? = some u) (hdepth : u.depth ≠ 0) :
    ∃ e a, n.openings[a]? = some e ∧ u.enclosing? = some e ∧ u.depth = e.depth + 1 ∧ a < j ∧
      j < a + e.span := by
  obtain ⟨e, henc⟩ : ∃ e, u.enclosing? = some e :=
    Option.ne_none_iff_exists'.1 fun hnone => hdepth (depth_eq_zero_iff.2 hnone)
  have hmem : e ∈ n.openings :=
    mem_openings_of_enclosing? (mem_walked_of_mem_openings (List.mem_of_getElem? hu)) henc
  obtain ⟨a, ha⟩ := List.mem_iff_getElem?.1 hmem
  obtain ⟨hlt, hspan⟩ := (mem_above_iff_of_getElem? ha hu).1 (mem_above_of_enclosing? henc)
  exact ⟨e, a, ha, henc, depth_eq_of_enclosing? henc, hlt, hspan⟩

/-- Inside a block the depths are greater than at its beginning. -/
theorem depth_lt_of_lt_span (hv : n.openings[i]? = some v) (hu : n.openings[j]? = some u)
    (hij : i < j) (hj : j < i + v.span) : v.depth < u.depth :=
  depth_lt_of_mem_above ((mem_above_iff_of_getElem? hv hu).2 ⟨hij, hj⟩) (isScope_of_getElem? hv)

/-- If a scope stands between another and one inside that, it is inside too, or the same. -/
theorem depth_le_of_between {e : Spot} {a : Nat} (he : n.openings[a]? = some e)
    (hv : n.openings[i]? = some v) (hai : a ≤ i) (hi : i < a + e.span) :
    e.depth ≤ v.depth := by
  rcases Nat.lt_or_eq_of_le hai with hlt | rfl
  · exact Nat.le_of_lt (depth_lt_of_lt_span he hv hlt hi)
  · rw [Option.some.inj (he.symm.trans hv)]

/-- **Behind a block the depth falls back** to that of its beginning or below. -/
theorem depth_le_of_eq_span (hv : n.openings[i]? = some v) (hu : n.openings[j]? = some u)
    (hj : j = i + v.span) : u.depth ≤ v.depth := by
  by_cases hdepth : u.depth = 0
  · omega
  obtain ⟨e, a, ha, henc, hsucc, haj, hspan⟩ := exists_enclosing_of_getElem? hu hdepth
  -- what `u` falls into cannot be in the block, or `u` would be
  have hai : a < i := by
    by_contra hge
    have hve : v ∈ e.upward := (mem_upward_iff_of_getElem? hv ha).2 ⟨by omega, by omega⟩
    have hvu : v ∈ u.above := mem_above_of_mem_upward hve (mem_above_of_enclosing? henc)
    have := (mem_above_iff_of_getElem? hv hu).1 hvu
    omega
  have hlt : e.depth < v.depth := depth_lt_of_lt_span ha hv hai (by omega)
  omega

/-- From one scope to the next the depth grows by one at most. -/
theorem depth_le_succ (hv : n.openings[i]? = some v) (hu : n.openings[i + 1]? = some u) :
    u.depth ≤ v.depth + 1 := by
  by_cases hdepth : u.depth = 0
  · omega
  obtain ⟨e, a, ha, -, hsucc, hlt, hspan⟩ := exists_enclosing_of_getElem? hu hdepth
  have := depth_le_of_between ha hv (by omega) (by omega)
  omega

/-- **Depths tell into which scope another falls**: into the last one before it that is less deep,
and that one is less deep by one. -/
theorem enclosing?_eq_iff_of_getElem? (hv : n.openings[i]? = some v)
    (hu : n.openings[j]? = some u) :
    u.enclosing? = some v ↔ i < j ∧ u.depth = v.depth + 1 ∧
      ∀ (k : Nat) (w : Spot), i < k → k < j → n.openings[k]? = some w → v.depth < w.depth := by
  constructor
  · intro henc
    obtain ⟨hlt, hspan⟩ := (mem_above_iff_of_getElem? hv hu).1 (mem_above_of_enclosing? henc)
    refine ⟨hlt, depth_eq_of_enclosing? henc, fun k w hik hkj hw => ?_⟩
    exact depth_lt_of_lt_span hv hw hik (by omega)
  · rintro ⟨hlt, hdepth, hbetween⟩
    -- the block of `v` ends behind `u`, since the depth has not fallen back before
    have hspan : j < i + v.span := by
      have hpos := span_pos hv
      by_contra hge
      rcases Nat.lt_or_eq_of_le (Nat.not_lt.1 hge) with hend | hend
      · have hlast : i + v.span < n.openings.length :=
          Nat.lt_trans hend (List.getElem?_eq_some_iff.1 hu).1
        have hw := List.getElem?_eq_getElem hlast
        have hgreater := hbetween _ _ (by omega) hend hw
        have hless := depth_le_of_eq_span hv hw rfl
        omega
      · have := depth_le_of_eq_span hv hu hend.symm
        omega
    have habove : v ∈ u.above := (mem_above_iff_of_getElem? hv hu).2 ⟨hlt, hspan⟩
    obtain ⟨e, a, ha, henc, hsucc, -, -⟩ := exists_enclosing_of_getElem? hu (by omega)
    have heq : e = v := eq_of_depth_eq (t := u)
      (List.mem_cons_of_mem u (mem_above_of_enclosing? henc)) (List.mem_cons_of_mem u habove)
      (isScope_of_getElem? ha) (isScope_of_getElem? hv) (by omega)
    rw [henc, heq]

/-! ## Scores of blocks -/

theorem InnerWalk.costOwn_graft {pre post : List Spot} (h : InnerWalk n v pre post)
    (hv : v.isScope = true) (f : Category → Int) {t : Spot} (ht : t ∈ v.node.walked) :
    n.costOwn f (graft v t) = v.node.costOwn f t := by
  rw [costOwn, costOwn, h.fallingInto_walked hv ht, List.map_map]
  refine congrArg List.sum (List.map_congr_left fun x hx => ?_)
  rw [Function.comp_apply, node_graft (start_mem_upward (mem_fallingInto.1 hx).1)]

/-- **The score of a scope is the sum of the own penalties of its block.** -/
theorem costInside_eq_sum_block (f : Category → Int) (hv : n.openings[i]? = some v) :
    n.costInside f v = (((n.openings.drop i).take v.span).map (n.costOwn f)).sum := by
  obtain ⟨pre, post, hinner, hlength, hsplit⟩ := exists_block hv
  have hscope : v.isScope = true := isScope_of_getElem? hv
  have hblock : (n.openings.drop i).take v.span = v.node.openings.map (graft v) := by
    have hspan : v.span = (v.node.openings.map (graft v)).length := (List.length_map ..).symm
    rw [hsplit, ← hlength, List.drop_left, hspan, List.take_left]
  calc n.costInside f v = v.node.costInside f (.start v.node) :=
        hinner.costInside_graft f (t := .start v.node) (mem_walked_iff.2 .start)
    _ = (v.node.openings.map (v.node.costOwn f)).sum := by
        rw [← firstScore_of_scope hscope, firstScore_eq_sum_costOwn hscope]
    _ = ((v.node.openings.map (graft v)).map (n.costOwn f)).sum := by
        rw [List.map_map]
        refine congrArg List.sum (List.map_congr_left fun t ht => ?_)
        exact (hinner.costOwn_graft hscope f (mem_walked_of_mem_openings ht)).symm
    _ = _ := by rw [hblock]

end Node

end ScopeScore
