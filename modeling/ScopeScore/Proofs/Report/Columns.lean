import ScopeScore.Proofs.Analyzer.Blocks
import ScopeScore.Proofs.Traversal
import Mathlib.Data.List.Sort
import Mathlib.Data.List.TakeWhile

set_option autoImplicit false

/-! # What the columns of a report tell

A report is flat: of the nesting of the scopes it shows the depth of each, and of the penalties it
shows scores, which count all that is inside. Nothing is lost by that. What is inside a scope stands
behind it, as far as the depths are greater than its own, and its children are those of them that
are deeper by one. `Column.childrenAt` and `Column.ownAt` read the children and the own penalty of a
scope off the columns of depths and of scores.

* `Node.runAfter_depths`: the run of greater depths is the block of the scope, also if rows of other
  files stand before and behind.
* **`Node.childrenAt_depths`**, **`Node.ownAt_scores`**: what is read off the columns is right.
* `Store.ListsNesting`: how the numbers of a list of records are nested.

**`Analyzer.columns_tell_nesting`** says so of the records of a run.
-/

namespace ScopeScore

open Spot

/-! ## Reading columns -/

namespace Column

/-- How many positions behind `i` are deeper than `i`, without a gap. -/
def runAfter (depths : List Int) (i : Nat) : Nat :=
  match depths.drop i with
  | [] => 0
  | d :: rest => (rest.takeWhile (d < ·)).length

/-- The children of the scope at position `i`: among the scopes inside, those that are deeper by
one. -/
def childrenAt (depths : List Int) (i : Nat) : List Nat :=
  (List.range' (i + 1) (runAfter depths i)).filter fun j => depths[j]? = depths[i]?.map (· + 1)

/-- The own penalty of the scope at position `i`: its score without those of its children. -/
def ownAt (depths scores : List Int) (i : Nat) : Int :=
  scores.getD i 0 - ((childrenAt depths i).map (scores.getD · 0)).sum

theorem takeWhile_append_of_head? {α : Type} {p : α → Bool} (xs : List α) {ys : List α}
    (h : ∀ y ∈ ys.head?, p y = false) : (xs ++ ys).takeWhile p = xs.takeWhile p := by
  have hys : ys.takeWhile p = [] := by
    cases ys with
    | nil => rfl
    | cons y ys => rw [List.takeWhile_cons, h y rfl, if_neg Bool.false_ne_true]
  induction xs with
  | nil => exact hys
  | cons x xs ih => rw [List.cons_append, List.takeWhile_cons, List.takeWhile_cons, ih]

theorem getElem?_between {α : Type} (xs ys zs : List α) {k : Nat} (hk : k < ys.length) :
    (xs ++ (ys ++ zs))[xs.length + k]? = ys[k]? := by
  rw [List.getElem?_append_right (Nat.le_add_right ..), Nat.add_sub_cancel_left,
    List.getElem?_append_left hk]

end Column

open Column

/-! ## The columns of a tree -/

namespace Node

variable {n : Node} {v : Spot} {i : Nat}

/-- The depths of the scopes of a tree, in order. -/
def depths (n : Node) : List Int := n.openings.map fun v => (v.depth : Int)

/-- The scores of the scopes of a tree, in order, if the categories cost `f`. -/
def scores (f : Category → Int) (n : Node) : List Int := n.openings.map (n.costInside f)

theorem length_depths (n : Node) : n.depths.length = n.openings.length := List.length_map ..

theorem getElem?_depths (hv : n.openings[i]? = some v) : n.depths[i]? = some (v.depth : Int) := by
  rw [depths, List.getElem?_map, hv, Option.map_some]

theorem add_span_le (hv : n.openings[i]? = some v) : i + v.span ≤ n.openings.length := by
  obtain ⟨pre, post, -, hlength, hsplit⟩ := exists_block hv
  rw [hsplit, List.length_append, List.length_append, List.length_map, hlength, span]
  omega

/-- **Behind a scope, the longest run of deeper ones is its block.** -/
theorem takeWhile_openings (hv : n.openings[i]? = some v) :
    (n.openings.drop (i + 1)).takeWhile (fun u => decide (v.depth < u.depth)) =
      (n.openings.drop (i + 1)).take (v.span - 1) := by
  have hpos := span_pos hv
  have hsplit := (List.take_append_drop (v.span - 1) (n.openings.drop (i + 1))).symm
  have hinside : ∀ u ∈ (n.openings.drop (i + 1)).take (v.span - 1),
      decide (v.depth < u.depth) = true := by
    intro u hu
    obtain ⟨k, hk⟩ := List.mem_iff_getElem?.1 hu
    have hlt : k < v.span - 1 := by
      have := (List.getElem?_eq_some_iff.1 hk).1
      rw [List.length_take] at this
      omega
    rw [List.getElem?_take_of_lt hlt, List.getElem?_drop] at hk
    exact decide_eq_true (depth_lt_of_lt_span hv hk (by omega) (by omega))
  have hbehind : ∀ u ∈ ((n.openings.drop (i + 1)).drop (v.span - 1)).head?,
      decide (v.depth < u.depth) = false := by
    intro u hu
    rw [List.drop_drop, List.head?_drop] at hu
    have hle := depth_le_of_eq_span hv hu (by omega)
    exact decide_eq_false (by omega)
  calc (n.openings.drop (i + 1)).takeWhile (fun u => decide (v.depth < u.depth))
      = ((n.openings.drop (i + 1)).take (v.span - 1) ++
          (n.openings.drop (i + 1)).drop (v.span - 1)).takeWhile
            (fun u => decide (v.depth < u.depth)) := by rw [← hsplit]
    _ = ((n.openings.drop (i + 1)).take (v.span - 1)).takeWhile
          (fun u => decide (v.depth < u.depth)) := takeWhile_append_of_head? _ hbehind
    _ = (n.openings.drop (i + 1)).take (v.span - 1) := List.takeWhile_eq_self_iff.2 hinside

/-- The run of greater depths is as long as the block, whatever stands before the depths of the tree
and whatever stands behind them, if that begins on the outside. -/
theorem runAfter_depths (hv : n.openings[i]? = some v) (before : List Int) {after : List Int}
    (hafter : ∀ d ∈ after.head?, d ≤ 0) :
    runAfter (before ++ (n.depths ++ after)) (before.length + i) = v.span - 1 := by
  have hlt : i < n.openings.length := (List.getElem?_eq_some_iff.1 hv).1
  have hdrop : (before ++ (n.depths ++ after)).drop (before.length + i) =
      (v.depth : Int) :: ((n.openings.drop (i + 1)).map (fun u => (u.depth : Int)) ++ after) := by
    rw [List.drop_length_add_append, List.drop_append_of_le_length (by rw [length_depths]; omega),
      depths, ← List.map_drop, List.drop_eq_getElem_cons hlt, (List.getElem?_eq_some_iff.1 hv).2]
    rfl
  have hend : ∀ d ∈ after.head?, decide ((v.depth : Int) < d) = false := by
    intro d hd
    have := hafter d hd
    exact decide_eq_false (by omega)
  -- comparing depths as integers is comparing them as they are
  have hsame : (fun d => decide ((v.depth : Int) < d)) ∘ (fun u : Spot => (u.depth : Int)) =
      fun u => decide (v.depth < u.depth) := by
    funext u
    exact decide_eq_decide.2 Int.ofNat_lt
  have hle := add_span_le hv
  rw [runAfter, hdrop]
  show (List.takeWhile (fun d => decide ((v.depth : Int) < d)) _).length = _
  rw [takeWhile_append_of_head? _ hend, List.takeWhile_map, hsame, takeWhile_openings hv,
    List.length_map, List.length_take, List.length_drop]
  omega

/-- **The children of a scope are read off the depths.** -/
theorem childrenAt_depths (hv : n.openings[i]? = some v) (before : List Int) {after : List Int}
    (hafter : ∀ d ∈ after.head?, d ≤ 0) :
    childrenAt (before ++ (n.depths ++ after)) (before.length + i) =
      ((fallingInto v n.openings).map n.openings.idxOf).map (before.length + ·) := by
  have hpos := span_pos hv
  have hend := add_span_le hv
  have hdepth : ∀ {k : Nat} {u : Spot}, n.openings[k]? = some u →
      (before ++ (n.depths ++ after))[before.length + k]? = some (u.depth : Int) := by
    intro k u hu
    have hk : k < n.depths.length := by
      rw [length_depths]
      exact (List.getElem?_eq_some_iff.1 hu).1
    rw [getElem?_between _ _ _ hk, getElem?_depths hu]
  -- both lists are in order, so it is enough that they have the same members
  refine List.Pairwise.eq_of_mem_iff (r := (· < ·)) ?_ ?_ fun j => ?_
  · exact (List.pairwise_lt_range' 1).filter _
  · have hsub : ((fallingInto v n.openings).map n.openings.idxOf).Sublist
        (n.openings.map n.openings.idxOf) := List.filter_sublist.map _
    have hall : n.openings.map n.openings.idxOf = List.range' 0 n.openings.length := by
      rw [← map_number_openings]
      exact List.map_congr_left fun u _ => (Nat.zero_add _).symm
    refine ((hall ▸ List.pairwise_lt_range' 1).sublist hsub).map _ fun a b hab => ?_
    exact Nat.add_lt_add_left hab _
  · rw [childrenAt, runAfter_depths hv before hafter, List.mem_filter, List.mem_range'_1,
      decide_eq_true_iff, hdepth hv, Option.map_some, List.mem_map]
    constructor
    · rintro ⟨⟨hlow, hhigh⟩, hj⟩
      obtain ⟨k, rfl⟩ : ∃ k, j = before.length + k := ⟨j - before.length, by omega⟩
      have hk : n.openings[k]? = some _ := List.getElem?_eq_getElem (by omega)
      rw [hdepth hk] at hj
      have henc := (enclosing?_eq_iff_of_getElem? hv hk).2
        ⟨by omega, by have := Option.some.inj hj; omega, fun m w him hmk hw =>
          depth_lt_of_lt_span hv hw him (by omega)⟩
      refine ⟨k, List.mem_map.2 ⟨_, mem_fallingInto.2 ⟨List.mem_of_getElem? hk, henc⟩, ?_⟩, rfl⟩
      have hindex := number_of_getElem? hk 0
      rwa [number, Nat.zero_add, Nat.zero_add] at hindex
    · rintro ⟨k, hk, rfl⟩
      obtain ⟨u, hu, rfl⟩ := List.mem_map.1 hk
      obtain ⟨hmem, henc⟩ := mem_fallingInto.1 hu
      have hget : n.openings[n.openings.idxOf u]? = some u := List.getElem?_idxOf hmem
      obtain ⟨hlt, hsucc, -⟩ := (enclosing?_eq_iff_of_getElem? hv hget).1 henc
      have hspan := ((mem_above_iff_of_getElem? hv hget).1 (mem_above_of_enclosing? henc)).2
      refine ⟨by omega, ?_⟩
      rw [hdepth hget, hsucc]
      rfl

/-- **The own penalty of a scope is read off the depths and the scores.** -/
theorem ownAt_scores (f : Category → Int) (hv : n.openings[i]? = some v) {before after : List Int}
    {before' : List Int} (after' : List Int) (hlength : before'.length = before.length)
    (hafter : ∀ d ∈ after.head?, d ≤ 0) :
    ownAt (before ++ (n.depths ++ after)) (before' ++ (n.scores f ++ after'))
      (before.length + i) = n.costOwn f v := by
  have hscore : ∀ {k : Nat} {u : Spot}, n.openings[k]? = some u →
      (before' ++ (n.scores f ++ after')).getD (before.length + k) 0 = n.costInside f u := by
    intro k u hu
    have hk : k < (n.scores f).length := by
      rw [scores, List.length_map]
      exact (List.getElem?_eq_some_iff.1 hu).1
    rw [List.getD_eq_getElem?_getD, ← hlength, getElem?_between _ _ _ hk, scores,
      List.getElem?_map, hu, Option.map_some, Option.getD_some]
  have hchildren : ((childrenAt (before ++ (n.depths ++ after)) (before.length + i)).map
      ((before' ++ (n.scores f ++ after')).getD · 0)).sum =
        ((fallingInto v n.openings).map (n.costInside f)).sum := by
    rw [childrenAt_depths hv before hafter, List.map_map, List.map_map]
    refine congrArg List.sum (List.map_congr_left fun u hu => ?_)
    exact hscore (List.getElem?_idxOf (mem_fallingInto.1 hu).1)
  -- a score is the own penalty and the scores of the children
  have hsum := costInside_eq f (n := n) (isScope_of_getElem? hv)
  rw [ownAt, hscore hv, hchildren, hsum, costOwn]
  omega

/-! ## Depths and scores as numbers of a record -/

/-- Only the first scope is outermost. -/
theorem depth_pos_of_getElem? (hn : n.kind.isScope = true) (hv : n.openings[i + 1]? = some v) :
    0 < v.depth := by
  refine Nat.pos_of_ne_zero fun hzero => ?_
  have hstart := (depth_eq_zero_iff_eq_start hn
    (mem_walked_of_mem_openings (List.mem_of_getElem? hv))).1 hzero
  obtain ⟨rest, hrest⟩ := openings_eq_cons hn
  have hfirst : n.openings[0]? = some v := by
    rw [hrest, hstart]
    rfl
  exact absurd (eq_of_getElem?_openings hfirst hv) (by omega)

/-- The score of a scope is its own penalty and those of the run of deeper scopes behind it. -/
theorem costInside_eq_sum_run (f : Category → Int) (hv : n.openings[i]? = some v) :
    n.costInside f v = n.costOwn f v +
      (((n.openings.drop (i + 1)).takeWhile fun u => decide (v.depth < u.depth)).map
        (n.costOwn f)).sum := by
  obtain ⟨hlt, hget⟩ := List.getElem?_eq_some_iff.1 hv
  have hspan : v.span = v.span - 1 + 1 := by
    have := span_pos hv
    omega
  have hblock : (n.openings.drop i).take v.span =
      v :: (n.openings.drop (i + 1)).take (v.span - 1) := by
    rw [List.drop_eq_getElem_cons hlt, hget, hspan, List.take_succ_cons, Nat.add_sub_cancel]
  rw [costInside_eq_sum_block f hv, hblock, List.map_cons, List.sum_cons, takeWhile_openings hv]

end Node

/-! ## The records of a run -/

/-- The numbers that are told of a scope. -/
structure Standing where
  depth : Int
  /-- The penalties that fall into the scope itself. -/
  own : Int
  score : Int
deriving DecidableEq, Repr

/-- These are the numbers of the scope. -/
structure Store.Stands (s : Store) (id : ScopeId) (x : Standing) : Prop where
  scope : ∃ scope, s.get? id = some scope ∧ scope.depth = x.depth ∧ scope.own = .int x.own
  score : s.score id = .ok (.int x.score)

/-- The numbers of the scope opened at `v`, if the categories cost `f`. -/
def Node.standingAt (f : Category → Int) (n : Node) (v : Spot) : Standing where
  depth := v.depth
  own := n.costOwn f v
  score := n.costInside f v

theorem Session.Mirrors.stands_number {w : Weights} {f : Category → Int} {outer : List Node}
    {old : Store} {n : Node} {s : Session} {v : Spot}
    (h : Mirrors w outer old n.walked n.openings none s) (hf : ∀ c, w.get c = .int (f c))
    (hv : v ∈ n.openings) :
    s.scopes.Stands (Spot.number old.size n.openings v) (n.standingAt f v) := by
  obtain ⟨own, htotal, hget⟩ := h.made v hv
  have hown := Except.ok.inj (htotal.symm.trans (total_charges_of_ints hf _))
  exact ⟨⟨_, hget, rfl, hown⟩, h.score_number hf hv⟩

namespace Frame

variable {s : Store} {file : String}

/-- A row shows the depth and the score of its scope. -/
theorem row_of_stands {id : ScopeId} {x : Standing} {row : Row} (h : s.Stands id x)
    (hrow : rowOf file s id = .ok row) : row.depth = x.depth ∧ row.score = .int x.score := by
  obtain ⟨scope, hget, hdepth, -⟩ := h.scope
  unfold rowOf at hrow
  rw [h.score, hget] at hrow
  cases hname : s.signature id with
  | error e =>
      rw [hname] at hrow
      cases hrow
  | ok name =>
      rw [hname] at hrow
      obtain rfl := Except.ok.inj hrow
      exact ⟨hdepth, rfl⟩

theorem columns_of_stands {ids : List ScopeId} {xs : List Standing} {rows : List Row}
    (h : List.Forall₂ s.Stands ids xs)
    (hrows : List.Forall₂ (fun id row => rowOf file s id = .ok row) ids rows) :
    rows.map Row.depth = xs.map Standing.depth ∧
      rows.map Row.score = xs.map fun x => Amount.int x.score := by
  induction h generalizing rows with
  | nil =>
      cases hrows
      exact ⟨rfl, rfl⟩
  | cons hid _ ih =>
      cases hrows with
      | cons hrow hrest =>
          obtain ⟨hdepth, hscore⟩ := row_of_stands hid hrow
          obtain ⟨hdepths, hscores⟩ := ih hrest
          constructor
          · rw [List.map_cons, List.map_cons, hdepth, hdepths]
          · rw [List.map_cons, List.map_cons, hscore, hscores]

end Frame

/-! ## The nesting in the list -/

/-- The numbers of the scopes of a tree, in order. -/
def Node.standings (f : Category → Int) (n : Node) : List Standing :=
  n.openings.map (n.standingAt f)

theorem Node.getElem?_standings {f : Category → Int} {n : Node} {i : Nat} {x : Standing}
    (h : (n.standings f)[i]? = some x) : ∃ v, n.openings[i]? = some v ∧ n.standingAt f v = x := by
  rw [standings, List.getElem?_map] at h
  exact Option.map_eq_some_iff.1 h

/-- The scopes from number `base` on have these numbers, and the numbers are nested. -/
structure Store.ListsNesting (s : Store) (base : ScopeId) (xs : List Standing) : Prop where
  stands : ∀ i x, xs[i]? = some x → s.Stands (base + i) x
  /-- The first scope is around all others. -/
  first : xs.head?.map Standing.depth = some 0
  /-- The others are inside, and one level at most is entered at a time. -/
  step : ∀ i x y, xs[i]? = some x → xs[i + 1]? = some y → 1 ≤ y.depth ∧ y.depth ≤ x.depth + 1
  /-- A child is deeper by one, and nothing between is as little deep as its parent. -/
  child_iff : ∀ i j x y, xs[i]? = some x → xs[j]? = some y →
    (base + j ∈ s.childrenOf (base + i) ↔ i < j ∧ y.depth = x.depth + 1 ∧
      ∀ k z, i < k → k < j → xs[k]? = some z → ¬ z.depth ≤ x.depth)
  /-- A score is made of the own penalties in the run of deeper scopes. -/
  score_eq : ∀ i x, xs[i]? = some x → x.score = x.own +
    (((xs.drop (i + 1)).takeWhile fun y => decide (x.depth < y.depth)).map Standing.own).sum

namespace Session.Mirrors

variable {w : Weights} {f : Category → Int} {outer : List Node} {old : Store} {n : Node}
  {s : Session}

/-- **The list of records keeps the nesting.** -/
theorem listsNesting (h : Mirrors w outer old n.walked n.openings none s)
    (hf : ∀ c, w.get c = .int (f c)) (hn : n.kind.isScope = true) :
    s.scopes.ListsNesting old.size (n.standings f) := by
  refine ⟨?stands, ?first, ?step, ?child, ?score⟩
  case stands =>
    intro i x hx
    obtain ⟨v, hv, rfl⟩ := Node.getElem?_standings hx
    rw [← Node.number_of_getElem? hv]
    exact h.stands_number hf (List.mem_of_getElem? hv)
  case first =>
    obtain ⟨rest, hrest⟩ := Node.openings_eq_cons hn
    rw [Node.standings, hrest]
    rfl
  case step =>
    intro i x y hx hy
    obtain ⟨v, hv, rfl⟩ := Node.getElem?_standings hx
    obtain ⟨u, hu, rfl⟩ := Node.getElem?_standings hy
    have hpos := Node.depth_pos_of_getElem? hn hu
    have hle := Node.depth_le_succ hv hu
    simp only [Node.standingAt]
    omega
  case child =>
    intro i j x y hx hy
    obtain ⟨v, hv, rfl⟩ := Node.getElem?_standings hx
    obtain ⟨u, hu, rfl⟩ := Node.getElem?_standings hy
    rw [← Node.number_of_getElem? hv, ← Node.number_of_getElem? hu,
      h.mem_childrenOf_iff (List.mem_of_getElem? hv) (List.mem_of_getElem? hu),
      Node.enclosing?_eq_iff_of_getElem? hv hu]
    refine and_congr_right fun _ => and_congr ?_ ⟨?_, ?_⟩
    · simp only [Node.standingAt]
      omega
    · intro hall k z hik hkj hz
      obtain ⟨t, ht, rfl⟩ := Node.getElem?_standings hz
      have := hall k t hik hkj ht
      simp only [Node.standingAt]
      omega
    · intro hall k t hik hkj ht
      have := hall k (n.standingAt f t) hik hkj (by rw [Node.standings, List.getElem?_map, ht]; rfl)
      simp only [Node.standingAt] at this
      omega
  case score =>
    intro i x hx
    obtain ⟨v, hv, rfl⟩ := Node.getElem?_standings hx
    have hsame : (fun y : Standing => decide ((n.standingAt f v).depth < y.depth)) ∘
        n.standingAt f = fun u => decide (v.depth < u.depth) := by
      funext u
      exact decide_eq_decide.2 Int.ofNat_lt
    rw [Node.standings, ← List.map_drop, List.takeWhile_map, hsame, List.map_map]
    exact Node.costInside_eq_sum_run f hv

/-- **Columns of depths and scores tell the children and the own penalty of a scope**, also if the
columns go on before and behind. -/
theorem told_by_columns (h : Mirrors w outer old n.walked n.openings none s) {i : Nat}
    {x : Standing} (hx : (n.standings f)[i]? = some x) {ds ds' ss : List Int} (ss' : List Int)
    (hlength : ss.length = ds.length) (hbehind : ∀ d ∈ ds'.head?, d ≤ 0) :
    let depths := ds ++ ((n.standings f).map Standing.depth ++ ds')
    let scores := ss ++ ((n.standings f).map Standing.score ++ ss')
    (∃ positions : List Nat, s.scopes.childrenOf (old.size + i) = positions.map (old.size + ·) ∧
      childrenAt depths (ds.length + i) = positions.map (ds.length + ·)) ∧
    ownAt depths scores (ds.length + i) = x.own := by
  have hdepths : (n.standings f).map Standing.depth = n.depths := List.map_map ..
  have hscores : (n.standings f).map Standing.score = n.scores f := List.map_map ..
  obtain ⟨v, hv, rfl⟩ := Node.getElem?_standings hx
  rw [hdepths, hscores]
  refine ⟨⟨_, ?_, Node.childrenAt_depths hv ds hbehind⟩,
    Node.ownAt_scores f hv ss' hlength hbehind⟩
  rw [← Node.number_of_getElem? hv, h.childrenOf_number (List.mem_of_getElem? hv), List.map_map]
  rfl

end Session.Mirrors

namespace Analyzer

/-- **The list of records loses no nesting.** From a start that is a scope, with integer weights and
room in the recorder, a run does not fail. Its records have numbers `xs` that are nested: depths
begin with 0, go down by one step at a time and never back to 0, tell which record is a child of
which, and a score is the sum of the own penalties of a record and of the run of deeper ones behind
it.

Rows of a report, if they can be made, show these depths and scores. And columns of depths and
scores that contain those of `xs`, and begin anew on the outside behind them, are enough to read off
the children and the own penalty of each record. -/
theorem columns_tell_nesting (a : Analyzer) (place : Place) (r : Recorder) (h : History)
    {f : Category → Int} (ints : ∀ c, a.weights.get c = .int (f c))
    (scope : place.node.kind.isScope = true) (room : r.HasRoom place.node.openings.length) :
    let run := a.analyze (some place) r h
    let base := h.scopes.size
    run.failure = none ∧ ∃ xs : List Standing,
      run.recorder.records = r.records ++ List.range' base xs.length ∧
      run.history.scopes.ListsNesting base xs ∧
      (∀ (file : String) (rows : List Row),
        (List.range' base xs.length).mapM (Frame.rowOf file run.history.scopes) = .ok rows →
        rows.map Row.depth = xs.map Standing.depth ∧
        rows.map Row.score = xs.map fun x => Amount.int x.score) ∧
      ∀ ds ds' ss ss' : List Int, ss.length = ds.length → (∀ d ∈ ds'.head?, d ≤ 0) →
        let depths := ds ++ (xs.map Standing.depth ++ ds')
        let scores := ss ++ (xs.map Standing.score ++ ss')
        ∀ i x, xs[i]? = some x →
          (∃ positions : List Nat,
            run.history.scopes.childrenOf (base + i) = positions.map (base + ·) ∧
            childrenAt depths (ds.length + i) = positions.map (ds.length + ·)) ∧
          ownAt depths scores (ds.length + i) = x.own := by
  intro run base
  obtain ⟨s, hmirror, hrun⟩ := a.analyze_completes_of_ints place r h ints room
  have hstore : run.history.scopes = s.scopes := congrArg (fun run => run.history.scopes) hrun
  have hlength : (place.node.standings f).length = place.node.openings.length := List.length_map ..
  rw [hstore]
  refine ⟨congrArg Analysis.failure hrun, place.node.standings f, ?records,
    hmirror.listsNesting ints scope, ?rows, ?columns⟩
  case records =>
    rw [hlength, ← Node.map_number_openings]
    exact congrArg (fun run => run.recorder.records) hrun
  case rows =>
    intro file rows hrows
    refine Frame.columns_of_stands ?_ (forall₂_of_mapM_eq_ok hrows)
    rw [hlength, ← Node.map_number_openings, Node.standings, List.forall₂_map_left_iff,
      List.forall₂_map_right_iff, List.forall₂_same]
    exact fun v hv => hmirror.stands_number ints hv
  case columns =>
    intro ds ds' ss ss' hss hbehind depths scores i x hx
    exact hmirror.told_by_columns hx ss' hss hbehind

/-- The nested tree has three records. In columns where a row of another file stands before them and
one behind them, the method is the child of the program, and each own penalty can be read off. -/
theorem columns_nestedTree :
    let run := ({} : Analyzer).analyze (some (Place.top nestedTree)) Recorder.unlimited {}
    nestedTree.kind.isScope = true ∧ ∃ xs : List Standing, xs.length = 3 ∧
      run.history.scopes.ListsNesting 0 xs ∧
      childrenAt ([0] ++ (xs.map Standing.depth ++ [0])) 1 = [2] ∧
      ∀ i x, xs[i]? = some x →
        ownAt ([0] ++ (xs.map Standing.depth ++ [0])) ([5] ++ (xs.map Standing.score ++ [9]))
          (1 + i) = x.own := by
  intro run
  have hscope : nestedTree.kind.isScope = true := by decide
  obtain ⟨-, xs, hrecords, hlists, -, hcolumns⟩ := columns_tell_nesting {} (Place.top nestedTree)
    Recorder.unlimited {} Weights.get_default_int hscope (Recorder.hasRoom_unlimited _)
  have htold := hcolumns [0] [0] [5] [9] rfl (by simp)
  have hthree : [0, 1, 2] = List.range' 0 xs.length :=
    (by decide +kernel : run.recorder.records = [0, 1, 2]).symm.trans hrecords
  have hlength : xs.length = 3 := by
    simpa using (congrArg List.length hthree).symm
  refine ⟨hscope, xs, hlength, hlists, ?_, fun i x hx => (htold i x hx).2⟩
  obtain ⟨x, hx⟩ : ∃ x, xs[0]? = some x := ⟨_, List.getElem?_eq_getElem (by omega)⟩
  obtain ⟨positions, hchildren, hat⟩ := (htold 0 x hx).1
  have hone : [1] = positions.map (0 + ·) :=
    (by decide +kernel : run.history.scopes.childrenOf 0 = [1]).symm.trans hchildren
  have hpositions : positions = [1] := by simpa using hone.symm
  rw [hpositions] at hat
  exact hat

end Analyzer

end ScopeScore
