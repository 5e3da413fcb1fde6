import ScopeScore.Tree.Walk
import Mathlib.Data.List.Pairwise
import Mathlib.Data.List.Nodup

set_option autoImplicit false

/-! # The spots of a walk

Two nodes of a tree may look alike and still be two nodes. What tells the nodes of a walk apart is
the way by which the walk reaches them: a `Spot` is a node together with that way, so the spots of
any walk differ from each other, whatever is written on the nodes.

* `Spot.above`: the spots on the way, nearest first; `Spot.enclosing?` is the nearest of them that
  opens a scope, and `Spot.depth` counts those that do.
* `Node.walked`: the spots of a walk, in the order in which they are entered.

**`walked_pairwise`**: no spot is entered twice, and none before a spot above it.
-/

namespace ScopeScore

/-- A node of a walk with the way to it: it is the node where the walk starts, or the child of a
spot at some position. -/
inductive Spot where
  | start (n : Node)
  | under (parent : Spot) (index : Nat) (n : Node)
deriving DecidableEq

namespace Spot

def node : Spot → Node
  | .start n => n
  | .under _ _ n => n

/-- The spot from which the walk came. -/
def parent? : Spot → Option Spot
  | .start _ => none
  | .under p _ _ => some p

/-- The spots above this one, nearest first: its proper ancestors within the walk. -/
def above : Spot → List Spot
  | .start _ => []
  | .under p _ _ => p :: p.above

/-- This spot and those above it. -/
def upward (s : Spot) : List Spot := s :: s.above

/-- How far below the start of the walk the spot is. -/
def level (s : Spot) : Nat := s.above.length

/-- What the walk shows of a spot to its visitors. -/
def visit (s : Spot) : Visit := { node := s.node, path := s.above.map node }

/-- Does the node open a scope? -/
def isScope (s : Spot) : Bool := s.node.kind.isScope

/-- The nearest spot above this one that opens a scope. -/
def enclosing? (s : Spot) : Option Spot := s.above.find? isScope

/-- How many of the spots above this one open a scope. -/
def depth (s : Spot) : Nat := s.above.countP isScope

/-! ## The way up -/

@[simp]
theorem above_start (n : Node) : (start n).above = [] := rfl

@[simp]
theorem above_under (p : Spot) (i : Nat) (n : Node) : (under p i n).above = p.upward := rfl

@[simp]
theorem mem_upward (s t : Spot) : s ∈ t.upward ↔ s = t ∨ s ∈ t.above := by
  simp [upward]

theorem level_lt_of_mem_above {s t : Spot} (h : s ∈ t.above) : s.level < t.level := by
  induction t with
  | start n => simp at h
  | under p i n ih =>
      have hp : (under p i n).level = p.level + 1 := by simp [level, upward]
      rcases (mem_upward s p).1 h with rfl | h
      · omega
      · have := ih h
        omega

theorem not_mem_above_self (s : Spot) : s ∉ s.above := fun h =>
  Nat.lt_irrefl _ (level_lt_of_mem_above h)

theorem mem_above_trans {r s t : Spot} (hr : r ∈ s.above) (hs : s ∈ t.above) : r ∈ t.above := by
  induction t with
  | start n => simp at hs
  | under p i n ih =>
      rcases (mem_upward s p).1 hs with rfl | hs
      · exact (mem_upward r s).2 (Or.inr hr)
      · exact (mem_upward r p).2 (Or.inr (ih hs))

theorem mem_above_of_mem_upward {r s t : Spot} (hr : r ∈ s.upward) (hs : s ∈ t.above) :
    r ∈ t.above := by
  rcases (mem_upward r s).1 hr with rfl | hr
  · exact hs
  · exact mem_above_trans hr hs

theorem mem_upward_trans {r s t : Spot} (hr : r ∈ s.upward) (hs : s ∈ t.upward) :
    r ∈ t.upward := by
  rcases (mem_upward s t).1 hs with rfl | hs
  · exact hr
  · exact List.mem_cons_of_mem t (mem_above_of_mem_upward hr hs)

theorem mem_above_of_under_mem_upward {s t : Spot} {i : Nat} {n : Node}
    (h : under s i n ∈ t.upward) : s ∈ t.above := by
  have hs : s ∈ (under s i n).above := List.mem_cons_self
  rcases (mem_upward _ t).1 h with rfl | h
  · exact hs
  · exact mem_above_trans hs h

/-- Of two spots on the way up one is above the other, unless they are the same. -/
theorem eq_of_not_mem_above {r s t : Spot} (hr : r ∈ t.upward) (hs : s ∈ t.upward)
    (hrs : r ∉ s.above) (hsr : s ∉ r.above) : r = s := by
  induction t with
  | start n =>
      simp only [mem_upward, above_start, List.not_mem_nil, or_false] at hr hs
      rw [hr, hs]
  | under p i n ih =>
      rcases (mem_upward _ _).1 hr with rfl | hr'
      · rcases (mem_upward _ _).1 hs with rfl | hs'
        · rfl
        · exact absurd hs' hsr
      · rcases (mem_upward _ _).1 hs with rfl | hs'
        · exact absurd hr' hrs
        · exact ih hr' hs'

/-- On the way up there is one spot at each level. -/
theorem eq_of_level_eq {r s t : Spot} (hr : r ∈ t.upward) (hs : s ∈ t.upward)
    (h : r.level = s.level) : r = s := by
  apply eq_of_not_mem_above hr hs
  · intro hrs
    have := level_lt_of_mem_above hrs
    omega
  · intro hsr
    have := level_lt_of_mem_above hsr
    omega

theorem mem_above_of_enclosing? {s t : Spot} (h : t.enclosing? = some s) : s ∈ t.above :=
  List.mem_of_find?_eq_some h

theorem isScope_of_enclosing? {s t : Spot} (h : t.enclosing? = some s) : s.isScope = true :=
  List.find?_some h

/-! ## Scopes on the way up -/

theorem enclosing?_under_of_scope {p : Spot} (hp : p.isScope = true) (i : Nat) (n : Node) :
    (under p i n).enclosing? = some p := by
  simp [enclosing?, upward, hp]

theorem enclosing?_under_of_not_scope {p : Spot} (hp : p.isScope = false) (i : Nat) (n : Node) :
    (under p i n).enclosing? = p.enclosing? := by
  simp [enclosing?, upward, hp]

theorem depth_under (p : Spot) (i : Nat) (n : Node) :
    (under p i n).depth = p.depth + if p.isScope = true then 1 else 0 := by
  simp [depth, upward, List.countP_cons]

/-- Outside every scope the depth is 0. -/
theorem depth_eq_zero_iff {t : Spot} : t.depth = 0 ↔ t.enclosing? = none := by
  simp [depth, enclosing?, List.countP_eq_zero]

/-- What falls into a scope is one deeper than the scope. -/
theorem depth_eq_of_enclosing? {s t : Spot} (h : t.enclosing? = some s) :
    t.depth = s.depth + 1 := by
  induction t with
  | start n => simp [enclosing?] at h
  | under p i n ih =>
      rw [depth_under]
      cases hp : p.isScope with
      | true =>
          rw [enclosing?_under_of_scope hp] at h
          obtain rfl := Option.some.inj h
          rfl
      | false =>
          rw [enclosing?_under_of_not_scope hp] at h
          simpa using ih h

/-- A scope is less deep than whatever is below it. -/
theorem depth_lt_of_mem_above {s t : Spot} (h : s ∈ t.above) (hs : s.isScope = true) :
    s.depth < t.depth := by
  induction t with
  | start n => simp at h
  | under p i n ih =>
      rw [depth_under]
      rcases (mem_upward s p).1 h with rfl | h
      · simp [hs]
      · have := ih h
        omega

/-- On the way up there is one scope of each depth. -/
theorem eq_of_depth_eq {r s t : Spot} (hr : r ∈ t.upward) (hs : s ∈ t.upward)
    (hr' : r.isScope = true) (hs' : s.isScope = true) (h : r.depth = s.depth) : r = s := by
  apply eq_of_not_mem_above hr hs
  · intro hrs
    have := depth_lt_of_mem_above hrs hr'
    omega
  · intro hsr
    have := depth_lt_of_mem_above hsr hs'
    omega

end Spot

/-! ## The order of a walk -/

namespace Node

mutual

/-- The spots of a walk from the spot `s`, whose node is given apart: `s` itself, and then those
under its named children in order. -/
def spotsFrom (s : Spot) : Node → List Spot
  | .node _ cs => s :: spotsUnder s 0 cs

/-- The spots of a walk through the named trees of a forest. They hang under `s`, the first of them
at position `i`. -/
def spotsUnder (s : Spot) (i : Nat) : List Node → List Spot
  | [] => []
  | c :: cs => (if c.named then spotsFrom (.under s i c) c else []) ++ spotsUnder s (i + 1) cs

end

/-- The spots of a walk that starts at `n`, in the order in which they are entered. -/
def walked (n : Node) : List Spot := spotsFrom (.start n) n

/-! ## Where the spots of a walk are -/

mutual

theorem mem_upward_of_mem_spotsFrom {s t : Spot} :
    ∀ n : Node, t ∈ spotsFrom s n → s ∈ t.upward
  | .node l cs, h => by
      rcases List.mem_cons.1 h with rfl | h
      · exact List.mem_cons_self
      · obtain ⟨j, c, _, hj⟩ := under_mem_upward_of_mem_spotsUnder 0 cs h
        exact List.mem_cons_of_mem _ (Spot.mem_above_of_under_mem_upward hj)

theorem under_mem_upward_of_mem_spotsUnder {s t : Spot} :
    ∀ (i : Nat) (cs : List Node), t ∈ spotsUnder s i cs →
      ∃ j c, i ≤ j ∧ Spot.under s j c ∈ t.upward
  | i, [], h => by simp [spotsUnder] at h
  | i, c :: cs, h => by
      rw [spotsUnder, List.mem_append] at h
      rcases h with h | h
      · -- a tree that is not named has no spots
        have hc : c.named = true := by
          by_contra hc
          simp [hc] at h
        rw [if_pos hc] at h
        exact ⟨i, c, Nat.le_refl i, mem_upward_of_mem_spotsFrom c h⟩
      · obtain ⟨j, d, hj, hd⟩ := under_mem_upward_of_mem_spotsUnder (i + 1) cs h
        exact ⟨j, d, by omega, hd⟩

end

mutual

theorem mem_spotsFrom_of_mem_above {s t r : Spot} (hr : r ∈ t.above) :
    ∀ n : Node, t ∈ spotsFrom s n → r ∈ spotsFrom s n ∨ r ∈ s.above
  | .node l cs, h => by
      rw [spotsFrom, List.mem_cons] at h ⊢
      rcases h with rfl | h
      · exact Or.inr hr
      · rcases mem_spotsUnder_of_mem_above hr 0 cs h with h | h
        · exact Or.inl (Or.inr h)
        · rcases (Spot.mem_upward r s).1 h with rfl | h
          · exact Or.inl (Or.inl rfl)
          · exact Or.inr h

theorem mem_spotsUnder_of_mem_above {s t r : Spot} (hr : r ∈ t.above) :
    ∀ (i : Nat) (cs : List Node), t ∈ spotsUnder s i cs →
      r ∈ spotsUnder s i cs ∨ r ∈ s.upward
  | i, [], h => by simp [spotsUnder] at h
  | i, c :: cs, h => by
      rw [spotsUnder, List.mem_append] at h ⊢
      rcases h with h | h
      · by_cases hc : c.named = true
        · rw [if_pos hc] at h ⊢
          rcases mem_spotsFrom_of_mem_above hr c h with h | h
          · exact Or.inl (Or.inl h)
          · exact Or.inr h
        · simp [hc] at h
      · rcases mem_spotsUnder_of_mem_above hr (i + 1) cs h with h | h
        · exact Or.inl (Or.inr h)
        · exact Or.inr h

end

/-- What is above a spot of a walk is a spot of the walk. -/
theorem mem_walked_of_mem_above {n : Node} {s t : Spot} (ht : t ∈ n.walked) (hs : s ∈ t.above) :
    s ∈ n.walked := by
  rcases mem_spotsFrom_of_mem_above hs n ht with h | h
  · exact h
  · simp at h

/-! ## No spot is entered twice, and none before a spot above it -/

mutual

theorem spotsFrom_pairwise (s : Spot) :
    ∀ n : Node, (spotsFrom s n).Pairwise fun x y => y ∉ x.upward
  | .node l cs => by
      rw [spotsFrom, List.pairwise_cons]
      refine ⟨?_, spotsUnder_pairwise s 0 cs⟩
      -- a later spot is below `s`, so it is not on the way up from there
      intro t ht hts
      obtain ⟨j, c, _, hj⟩ := under_mem_upward_of_mem_spotsUnder 0 cs ht
      have hs : s ∈ t.above := Spot.mem_above_of_under_mem_upward hj
      exact Spot.not_mem_above_self t (Spot.mem_above_of_mem_upward hts hs)

theorem spotsUnder_pairwise (s : Spot) :
    ∀ (i : Nat) (cs : List Node), (spotsUnder s i cs).Pairwise fun x y => y ∉ x.upward
  | i, [] => by simp [spotsUnder]
  | i, c :: cs => by
      rw [spotsUnder, List.pairwise_append]
      refine ⟨?_, spotsUnder_pairwise s (i + 1) cs, ?_⟩
      · split
        · exact spotsFrom_pairwise (.under s i c) c
        · exact List.Pairwise.nil
      · -- the two spots hang under different children of `s`, which are at the same level
        intro x hx y hy hyx
        have hc : c.named = true := by
          by_contra hc
          simp [hc] at hx
        rw [if_pos hc] at hx
        have hi : Spot.under s i c ∈ x.upward := mem_upward_of_mem_spotsFrom c hx
        obtain ⟨j, d, hj, hd⟩ := under_mem_upward_of_mem_spotsUnder (i + 1) cs hy
        have hdx : Spot.under s j d ∈ x.upward := Spot.mem_upward_trans hd hyx
        have heq : Spot.under s i c = Spot.under s j d := Spot.eq_of_level_eq hi hdx rfl
        have : i = j := (Spot.under.inj heq).2.1
        omega

end

/-- **The order of a walk**: no spot is entered twice, and none before a spot above it. -/
theorem walked_pairwise (n : Node) : n.walked.Pairwise fun x y => y ∉ x.upward :=
  spotsFrom_pairwise (.start n) n

theorem walked_nodup (n : Node) : n.walked.Nodup :=
  (walked_pairwise n).imp fun h => by
    rintro rfl
    exact h List.mem_cons_self

theorem not_mem_of_walked_eq {n : Node} {es rest : List Spot} {t : Spot}
    (hn : n.walked = es ++ t :: rest) : t ∉ es := by
  have hd : (es ++ t :: rest).Nodup := hn ▸ walked_nodup n
  intro h
  exact (List.nodup_append.1 hd).2.2 t h t List.mem_cons_self rfl

/-- When a spot is entered, nothing has been entered below it. -/
theorem enclosing?_ne_of_walked_eq {n : Node} {es rest : List Spot} {x t : Spot}
    (hn : n.walked = es ++ t :: rest) (hx : x ∈ es ++ [t]) : x.enclosing? ≠ some t := by
  have hp : (es ++ t :: rest).Pairwise fun x y => y ∉ x.upward := hn ▸ walked_pairwise n
  intro h
  -- what falls into `t` is below it, and so is entered after it
  have ht : t ∈ x.above := Spot.mem_above_of_enclosing? h
  rcases List.mem_append.1 hx with hx | hx
  · have hlater := (List.pairwise_append.1 hp).2.2 x hx t List.mem_cons_self
    exact hlater (List.mem_cons_of_mem x ht)
  · rw [List.mem_singleton.1 hx] at ht
    exact Spot.not_mem_above_self t ht

/-! ## Trees get smaller on the way down -/

mutual

theorem size_lt_of_mem_spotsFrom {s t : Spot} (hs : ∀ r ∈ s.above, s.node.size < r.node.size) :
    ∀ n : Node, s.node = n → t ∈ spotsFrom s n → ∀ r ∈ t.above, t.node.size < r.node.size
  | .node l cs, hn, h => by
      rcases List.mem_cons.1 h with rfl | h
      · exact hs
      · have hc : ∀ c ∈ cs, c.size < s.node.size := fun c hc =>
          size_lt_of_mem (by rw [hn]; exact hc)
        exact size_lt_of_mem_spotsUnder hs 0 cs hc h

theorem size_lt_of_mem_spotsUnder {s t : Spot} (hs : ∀ r ∈ s.above, s.node.size < r.node.size) :
    ∀ (i : Nat) (cs : List Node), (∀ c ∈ cs, c.size < s.node.size) → t ∈ spotsUnder s i cs →
      ∀ r ∈ t.above, t.node.size < r.node.size
  | i, [], _, h => by simp [spotsUnder] at h
  | i, c :: cs, hc, h => by
      rw [spotsUnder, List.mem_append] at h
      have hsmall : c.size < s.node.size := hc c List.mem_cons_self
      rcases h with h | h
      · by_cases hn : c.named = true
        · rw [if_pos hn] at h
          refine size_lt_of_mem_spotsFrom ?_ c rfl h
          intro r hr
          rcases (Spot.mem_upward r s).1 hr with rfl | hr
          · exact hsmall
          · exact Nat.lt_trans hsmall (hs r hr)
        · simp [hn] at h
      · exact size_lt_of_mem_spotsUnder hs (i + 1) cs
          (fun d hd => hc d (List.mem_cons_of_mem c hd)) h

end

/-- A node is smaller than every node above it, so it equals none of them. -/
theorem node_ne_of_mem_above {n : Node} {s t : Spot} (ht : t ∈ n.walked) (hs : s ∈ t.above) :
    t.node ≠ s.node := by
  have := size_lt_of_mem_spotsFrom (s := .start n) (by simp) n rfl ht s hs
  intro h
  rw [h] at this
  omega

end Node

end ScopeScore
