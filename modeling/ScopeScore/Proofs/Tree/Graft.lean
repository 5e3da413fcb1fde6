import ScopeScore.Proofs.Tree.Spot

set_option autoImplicit false

/-! # Walks inside walks

A walk may start at any node of a tree, also at one that a walk from further up reaches at a spot
`v`. The inner walk then is a part of the outer one: `Spot.graft v` takes its spots to those of the
outer walk.

* `Node.InnerWalk`: the spots of the inner walk are a block of those of the outer one, and what is
  not in the block is not below `v`. This is so for every spot (**`Node.exists_innerWalk`**).
* **`Spot.enclosing?_graft`**: if `v` opens a scope, a spot falls into the same scope in both walks,
  `v` itself apart.
-/

namespace ScopeScore

open Spot

namespace Spot

/-- A spot of the walk from the node of `v`, as a spot of the walk that reaches `v`. -/
def graft (v : Spot) : Spot → Spot
  | .start _ => v
  | .under p i n => .under (graft v p) i n

variable {v t : Spot}

theorem above_graft (v t : Spot) : (graft v t).above = t.above.map (graft v) ++ v.above := by
  induction t with
  | start n => rfl
  | under p i n ih =>
      show graft v p :: (graft v p).above = _
      rw [ih]
      rfl

theorem mem_upward_graft (v t : Spot) : v ∈ (graft v t).upward := by
  induction t with
  | start n => exact List.mem_cons_self
  | under p i n ih => exact List.mem_cons_of_mem _ ih

theorem graft_not_mem_above (v t : Spot) : graft v t ∉ v.above := fun h =>
  not_mem_above_self v (mem_above_of_mem_upward (mem_upward_graft v t) h)

theorem node_graft (ht : start v.node ∈ t.upward) : (graft v t).node = t.node := by
  cases t with
  | start n =>
      have hn : start v.node = start n := by simpa using ht
      exact Spot.start.inj hn
  | under p i n => rfl

/-- Whoever stands between a spot and the start of its walk belongs to that walk too. -/
theorem start_mem_upward_of_mem_above {n : Node} {u : Spot} (ht : start n ∈ t.upward)
    (hu : u ∈ t.above) : start n ∈ u.upward := by
  induction t with
  | start m => cases hu
  | under p i m ih =>
      have hp : start n ∈ p.upward := by simpa using ht
      rcases (mem_upward u p).1 hu with rfl | hu
      · exact hp
      · exact ih hp hu

theorem isScope_graft (ht : start v.node ∈ t.upward) : (graft v t).isScope = t.isScope := by
  rw [isScope, isScope, node_graft ht]

theorem map_node_above_graft (ht : start v.node ∈ t.upward) :
    (graft v t).above.map node = t.above.map node ++ v.above.map node := by
  rw [above_graft, List.map_append, List.map_map]
  refine congrArg (· ++ v.above.map node) (List.map_congr_left fun u hu => ?_)
  exact node_graft (start_mem_upward_of_mem_above ht hu)

theorem depth_graft (ht : start v.node ∈ t.upward) : (graft v t).depth = t.depth + v.depth := by
  rw [depth, above_graft, List.countP_append, List.countP_map]
  refine congrArg (· + v.depth) (List.countP_congr fun u hu => ?_)
  rw [Function.comp_apply, isScope_graft (start_mem_upward_of_mem_above ht hu)]

/-- **A spot falls into the same scope in both walks**, unless the inner walk starts there. The
search for the scope stops at `v` at the latest. -/
theorem enclosing?_graft (hv : v.isScope = true) (ht : start v.node ∈ t.above) :
    (graft v t).enclosing? = t.enclosing?.map (graft v) := by
  have hup : start v.node ∈ t.upward := List.mem_cons_of_mem t ht
  have hsame : (t.above.map (graft v)).find? isScope = t.enclosing?.map (graft v) := by
    rw [List.find?_map, enclosing?]
    refine congrArg (Option.map (graft v)) ?_
    have hfilter : t.above.filter (isScope ∘ graft v) = t.above.filter isScope :=
      List.filter_congr fun u hu => isScope_graft (start_mem_upward_of_mem_above hup hu)
    rw [← List.head?_filter, ← List.head?_filter, hfilter]
  have hfound : ((t.above.map (graft v)).find? isScope).isSome = true :=
    List.find?_isSome.2 ⟨v, List.mem_map.2 ⟨_, ht, rfl⟩, hv⟩
  rw [enclosing?, above_graft, List.find?_append, Option.or_of_isSome hfound, hsame]

end Spot

/-! ## The inner walk is a block of the outer one -/

namespace Node

mutual

theorem spotsFrom_graft (v s : Spot) :
    ∀ n : Node, spotsFrom (graft v s) n = (spotsFrom s n).map (graft v)
  | .node l cs => by
      rw [spotsFrom, spotsFrom, List.map_cons, spotsUnder_graft v s 0 cs]

theorem spotsUnder_graft (v s : Spot) :
    ∀ (i : Nat) (cs : List Node),
      spotsUnder (graft v s) i cs = (spotsUnder s i cs).map (graft v)
  | i, [] => rfl
  | i, c :: cs => by
      rw [spotsUnder, spotsUnder, List.map_append, spotsUnder_graft v s (i + 1) cs]
      by_cases hc : c.named = true
      · rw [if_pos hc, if_pos hc, ← spotsFrom_graft v (.under s i c) c]
        rfl
      · rw [if_neg hc, if_neg hc, List.map_nil]

end

/-- Spots under different children of a spot are not above each other. -/
theorem not_mem_upward_of_under {s u x : Spot} {i j : Nat} {c d : Node} (hij : i ≠ j)
    (hu : Spot.under s i c ∈ u.upward) (hx : Spot.under s j d ∈ x.upward) : u ∉ x.upward := by
  intro h
  have heq : Spot.under s i c = Spot.under s j d := eq_of_level_eq (mem_upward_trans hu h) hx rfl
  exact hij (Spot.under.inj heq).2.1

mutual

theorem exists_spotsFrom_eq {s v : Spot} :
    ∀ n : Node, s.node = n → v ∈ spotsFrom s n →
      ∃ pre post, spotsFrom s n = pre ++ spotsFrom v v.node ++ post ∧
        ∀ x ∈ pre ++ post, v ∉ x.upward
  | .node l cs, hs, hv => by
      rcases List.mem_cons.1 hv with rfl | hv
      · exact ⟨[], [], by simp [hs], by simp⟩
      · obtain ⟨pre, post, hsplit, hout⟩ := exists_spotsUnder_eq 0 cs hv
        refine ⟨s :: pre, post, by rw [spotsFrom, hsplit]; rfl, ?_⟩
        intro x hx
        rcases List.mem_cons.1 hx with rfl | hx
        · -- `v` is below the spot from which the walk comes
          obtain ⟨j, c, _, hj⟩ := under_mem_upward_of_mem_spotsUnder 0 cs hv
          intro hup
          exact not_mem_above_self v
            (mem_above_of_mem_upward hup (mem_above_of_under_mem_upward hj))
        · exact hout x hx

theorem exists_spotsUnder_eq {s v : Spot} :
    ∀ (i : Nat) (cs : List Node), v ∈ spotsUnder s i cs →
      ∃ pre post, spotsUnder s i cs = pre ++ spotsFrom v v.node ++ post ∧
        ∀ x ∈ pre ++ post, v ∉ x.upward
  | i, [], hv => by simp [spotsUnder] at hv
  | i, c :: cs, hv => by
      have hfirst : ∀ x ∈ (if c.named then spotsFrom (.under s i c) c else []),
          Spot.under s i c ∈ x.upward := by
        intro x hx
        split at hx
        · exact mem_upward_of_mem_spotsFrom c hx
        · cases hx
      rw [spotsUnder, List.mem_append] at hv
      rcases hv with hv | hv
      · have hvi := hfirst v hv
        have hc : c.named = true := by
          by_contra hc
          simp [hc] at hv
        rw [if_pos hc] at hv
        obtain ⟨pre, post, hsplit, hout⟩ := exists_spotsFrom_eq c rfl hv
        refine ⟨pre, post ++ spotsUnder s (i + 1) cs, ?_, ?_⟩
        · rw [spotsUnder, if_pos hc, hsplit]
          simp
        · intro x hx
          rw [← List.append_assoc] at hx
          rcases List.mem_append.1 hx with hx | hx
          · exact hout x hx
          · obtain ⟨j, d, hj, hd⟩ := under_mem_upward_of_mem_spotsUnder (i + 1) cs hx
            exact not_mem_upward_of_under (by omega) hvi hd
      · obtain ⟨j, d, hj, hd⟩ := under_mem_upward_of_mem_spotsUnder (i + 1) cs hv
        obtain ⟨pre, post, hsplit, hout⟩ := exists_spotsUnder_eq (i + 1) cs hv
        refine ⟨(if c.named then spotsFrom (.under s i c) c else []) ++ pre, post, ?_, ?_⟩
        · rw [spotsUnder, hsplit]
          simp
        · intro x hx
          rw [List.append_assoc] at hx
          rcases List.mem_append.1 hx with hx | hx
          · exact not_mem_upward_of_under (by omega) hd (hfirst x hx)
          · exact hout x hx

end

/-- The walk from the node of `v` is a block of the walk from `n`, between `pre` and `post`. -/
structure InnerWalk (n : Node) (v : Spot) (pre post : List Spot) : Prop where
  walked : n.walked = pre ++ v.node.walked.map (graft v) ++ post
  /-- What is not in the block is not below `v`. -/
  outside : ∀ x ∈ pre ++ post, v ∉ x.upward

/-- **The walk from any spot is a block.** -/
theorem exists_innerWalk {n : Node} {v : Spot} (hv : v ∈ n.walked) :
    ∃ pre post, InnerWalk n v pre post := by
  have hinner : v.node.walked.map (graft v) = spotsFrom v v.node :=
    (spotsFrom_graft v (.start v.node) v.node).symm
  obtain ⟨pre, post, hwalked, hout⟩ := exists_spotsFrom_eq n rfl hv
  rw [← hinner] at hwalked
  exact ⟨pre, post, hwalked, hout⟩

theorem start_mem_upward {n : Node} {t : Spot} (ht : t ∈ n.walked) : Spot.start n ∈ t.upward :=
  mem_upward_of_mem_spotsFrom n ht

namespace InnerWalk

variable {n : Node} {v : Spot} {pre post : List Spot}

theorem nodup_map_graft (h : InnerWalk n v pre post) : (v.node.walked.map (graft v)).Nodup := by
  have hnodup := n.walked_nodup
  rw [h.walked, List.append_assoc] at hnodup
  exact (List.nodup_append.1 (List.nodup_append.1 hnodup).2.1).1

/-- The inner walk has no two spots where the outer one has one. -/
theorem graft_inj (h : InnerWalk n v pre post) {t u : Spot} (ht : t ∈ v.node.walked)
    (hu : u ∈ v.node.walked) (htu : graft v t = graft v u) : t = u :=
  List.inj_on_of_nodup_map h.nodup_map_graft ht hu htu

/-- Choosing among the spots of the outer walk is choosing among those of the inner one, if only
spots below `v` are chosen. -/
theorem filter_walked (h : InnerWalk n v pre post) {P Q : Spot → Bool}
    (hout : ∀ x, v ∉ x.upward → P x = false)
    (hin : ∀ t ∈ v.node.walked, P (graft v t) = Q t) :
    n.walked.filter P = (v.node.walked.filter Q).map (graft v) := by
  have hnone : ∀ es : List Spot, (∀ x ∈ es, x ∈ pre ++ post) → es.filter P = [] := by
    intro es hes
    refine List.filter_eq_nil_iff.2 fun x hx => ?_
    simp [hout x (h.outside x (hes x hx))]
  have hpre : pre.filter P = [] := hnone pre fun x hx => List.mem_append_left _ hx
  have hpost : post.filter P = [] := hnone post fun x hx => List.mem_append_right _ hx
  have hblock : (v.node.walked.map (graft v)).filter P =
      (v.node.walked.filter Q).map (graft v) := by
    rw [List.filter_map]
    exact congrArg (List.map (graft v)) (List.filter_congr hin)
  rw [h.walked, List.filter_append, List.filter_append, hpre, hpost, hblock, List.nil_append,
    List.append_nil]

/-- In both walks the same spots fall into a scope of the inner one. -/
theorem enclosing?_graft_eq_iff (h : InnerWalk n v pre post) (hv : v.isScope = true) {t x : Spot}
    (ht : t ∈ v.node.walked) (hx : x ∈ v.node.walked) :
    (graft v x).enclosing? = some (graft v t) ↔ x.enclosing? = some t := by
  rcases (mem_upward _ x).1 (start_mem_upward hx) with rfl | hbelow
  · -- `v` itself falls into nothing of the inner walk
    constructor
    · intro henc
      exact absurd (mem_above_of_enclosing? henc) (graft_not_mem_above v t)
    · intro henc
      cases henc
  · rw [enclosing?_graft hv hbelow, Option.map_eq_some_iff]
    constructor
    · rintro ⟨u, hu, hut⟩
      have hmem : u ∈ v.node.walked := mem_walked_of_mem_above hx (mem_above_of_enclosing? hu)
      rw [hu, h.graft_inj hmem ht hut]
    · intro henc
      exact ⟨t, henc, rfl⟩

/-- In both walks the same spots are below a spot of the inner one. -/
theorem graft_mem_above_graft_iff (h : InnerWalk n v pre post) {t x : Spot}
    (ht : t ∈ v.node.walked) (hx : x ∈ v.node.walked) :
    graft v t ∈ (graft v x).above ↔ t ∈ x.above := by
  rw [above_graft, List.mem_append, List.mem_map]
  constructor
  · rintro (⟨u, hu, hut⟩ | habove)
    · have hmem : u ∈ v.node.walked := mem_walked_of_mem_above hx hu
      rwa [← h.graft_inj hmem ht hut]
    · exact absurd habove (graft_not_mem_above v t)
  · intro habove
    exact Or.inl ⟨t, habove, rfl⟩

end InnerWalk

end Node

end ScopeScore
