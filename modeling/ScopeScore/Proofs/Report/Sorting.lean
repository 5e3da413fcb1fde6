import ScopeScore.Report.Summary

set_option autoImplicit false

/-! # Sorting the rows of a summary

A summary sorts by score, file and location and keeps the order of rows that are the same to it. So
it is known from the rows that tie with each other, each such class in its order
(**`mergeSort_eq_of_ties`**).

Amounts in general have no total order, since a binary64 number may be no number. Rows with integer
scores have one (`Row.cmpInts`), and on these it is the order of summaries (`Row.cmp_eq_cmpInts`).
A frame of such rows has a summary for every threshold (`Frame.summarize_of_ofInts`), and for an
integer it is a stable sort by integers (`Frame.summarize_of_ints`).
-/

namespace ScopeScore

/-! ## Stable sorting -/

section StableSort

variable {α : Type} {cmp : α → α → Ordering}

/-- Those of some elements that tie with `x`, in order. -/
def ties (cmp : α → α → Ordering) (x : α) (l : List α) : List α := l.filter fun y => cmp x y = .eq

theorem mem_ties {x y : α} {l : List α} : y ∈ ties cmp x l ↔ y ∈ l ∧ cmp x y = .eq := by
  simp [ties]

theorem ties_cons_of_eq {x y : α} (h : cmp x y = .eq) (l : List α) :
    ties cmp x (y :: l) = y :: ties cmp x l :=
  List.filter_cons_of_pos (by simpa using h)

theorem ties_cons_of_ne {x y : α} (h : cmp x y ≠ .eq) (l : List α) :
    ties cmp x (y :: l) = ties cmp x l :=
  List.filter_cons_of_neg (by simpa using h)

variable [Std.TransCmp cmp] {l m : List α}

theorem isLE_total (a b : α) : ((cmp a b).isLE || (cmp b a).isLE) = true := by
  have hswap : cmp b a = (cmp a b).swap := Std.OrientedCmp.eq_swap
  rw [hswap]
  cases cmp a b <;> rfl

theorem pairwise_mergeSort_isLE (l : List α) :
    (l.mergeSort fun a b => (cmp a b).isLE).Pairwise fun a b => (cmp a b).isLE = true :=
  List.pairwise_mergeSort (fun _ _ _ => Std.TransCmp.isLE_trans) isLE_total l

/-- **Sorting is stable**: what ties with `x` keeps its order. -/
theorem ties_mergeSort (l : List α) (x : α) :
    ties cmp x (l.mergeSort fun a b => (cmp a b).isLE) = ties cmp x l := by
  -- what ties with `x` is sorted in whatever order it is
  have hsorted : (ties cmp x l).Pairwise fun a b => (cmp a b).isLE = true := by
    refine List.pairwise_of_forall_mem_list fun a ha b hb => ?_
    have hax : cmp a x = .eq := Std.OrientedCmp.eq_symm (mem_ties.1 ha).2
    have hab : cmp a b = .eq := Std.TransCmp.eq_trans hax (mem_ties.1 hb).2
    rw [hab]
    rfl
  have hsub : (ties cmp x l).Sublist (l.mergeSort fun a b => (cmp a b).isLE) :=
    List.sublist_mergeSort (fun _ _ _ => Std.TransCmp.isLE_trans) isLE_total hsorted
      List.filter_sublist
  have hkeep : (ties cmp x l).Sublist (ties cmp x (l.mergeSort fun a b => (cmp a b).isLE)) := by
    have htwice : ties cmp x (ties cmp x l) = ties cmp x l := by
      simp [ties, List.filter_filter]
    rw [← htwice]
    exact hsub.filter _
  have hlength : (ties cmp x l).length =
      (ties cmp x (l.mergeSort fun a b => (cmp a b).isLE)).length :=
    ((List.mergeSort_perm l _).filter _).length_eq.symm
  exact (hkeep.eq_of_length hlength).symm

/-- A sorted list is known from its classes of ties. -/
theorem eq_of_ties_eq (hl : l.Pairwise fun a b => (cmp a b).isLE = true)
    (hm : m.Pairwise fun a b => (cmp a b).isLE = true)
    (h : ∀ x, ties cmp x l = ties cmp x m) : l = m := by
  have hmem : ∀ {l m : List α}, (∀ x, ties cmp x l = ties cmp x m) → ∀ y ∈ l, y ∈ m := by
    intro l m h y hy
    have hy' : y ∈ ties cmp y m := h y ▸ mem_ties.2 ⟨hy, Std.ReflCmp.compare_self⟩
    exact (mem_ties.1 hy').1
  induction l generalizing m with
  | nil =>
      cases m with
      | nil => rfl
      | cons b m => exact absurd (hmem (fun x => (h x).symm) b List.mem_cons_self) (by simp)
  | cons a l ih =>
      cases m with
      | nil => exact absurd (hmem h a List.mem_cons_self) (by simp)
      | cons b m =>
          obtain ⟨hal, hl'⟩ := List.pairwise_cons.1 hl
          obtain ⟨hbm, hm'⟩ := List.pairwise_cons.1 hm
          -- each of the two heads is a least element, so they tie, and a class of ties has one head
          have hba : (cmp b a).isLE = true := by
            rcases List.mem_cons.1 (hmem h a List.mem_cons_self) with rfl | ha
            · exact Std.ReflCmp.isLE_rfl
            · exact hbm a ha
          have hab : (cmp a b).isLE = true := by
            rcases List.mem_cons.1 (hmem (fun x => (h x).symm) b List.mem_cons_self) with rfl | hb
            · exact Std.ReflCmp.isLE_rfl
            · exact hal b hb
          have htie : cmp a b = .eq := Std.OrientedCmp.isLE_antisymm hab hba
          have hheads := h a
          rw [ties_cons_of_eq Std.ReflCmp.compare_self, ties_cons_of_eq htie] at hheads
          obtain rfl : a = b := (List.cons.inj hheads).1
          refine congrArg (a :: ·) (ih hl' hm' fun x => ?_)
          have hx := h x
          by_cases hxa : cmp x a = .eq
          · rw [ties_cons_of_eq hxa, ties_cons_of_eq hxa] at hx
            exact (List.cons.inj hx).2
          · rwa [ties_cons_of_ne hxa, ties_cons_of_ne hxa] at hx

/-- **What sorting gives is known from the classes of ties.** -/
theorem mergeSort_eq_of_ties (h : ∀ x, ties cmp x l = ties cmp x m) :
    (l.mergeSort fun a b => (cmp a b).isLE) = m.mergeSort fun a b => (cmp a b).isLE := by
  refine eq_of_ties_eq (pairwise_mergeSort_isLE l) (pairwise_mergeSort_isLE m) fun x => ?_
  rw [ties_mergeSort, ties_mergeSort, h x]

end StableSort

/-! ## Integers and rows that hold them -/

/-- Is the amount an integer? -/
def Amount.IsInt (a : Amount) : Prop := ∃ n, a = .int n

theorem Amount.cmp_int (a b : Int) : cmp (.int a) (.int b) = compare a b := by
  unfold cmp
  simp only [le_int, decide_eq_true_eq]
  rcases Int.lt_trichotomy a b with h | h | h
  · rw [if_pos (by omega), if_neg (by omega), Int.compare_eq_lt.2 h]
  · rw [if_pos (by omega), if_pos (by omega), Int.compare_eq_eq.2 h]
  · rw [if_neg (by omega), Int.compare_eq_gt.2 h]

namespace Row

/-- The score of a row, if it is an integer. -/
def points (row : Row) : Int := row.score.int?.getD 0

/-- The order of rows with integer scores in a summary. -/
def cmpInts : Row → Row → Ordering :=
  compareLex (fun a b => compareOn points b a) (compareLex (compareOn file) (compareOn location))

instance : Std.TransCmp cmpInts := by
  unfold cmpInts
  infer_instance

theorem cmp_eq_cmpInts {a b : Row} (ha : a.score.IsInt) (hb : b.score.IsInt) :
    cmp a b = cmpInts a b := by
  obtain ⟨m, hm⟩ := ha
  obtain ⟨n, hn⟩ := hb
  have hscore : b.score.cmp a.score = compare b.points a.points := by
    rw [points, points, hm, hn]
    exact Amount.cmp_int n m
  rw [cmp, hscore]
  rfl

/-- Rows that tie are of the same file. -/
theorem file_eq_of_cmpInts {a b : Row} (h : cmpInts a b = .eq) : a.file = b.file := by
  have hrest : compareLex (compareOn file) (compareOn location) a b = .eq :=
    (Ordering.then_eq_eq.1 h).2
  have hfile : compare a.file b.file = .eq := (Ordering.then_eq_eq.1 hrest).1
  exact Std.LawfulEqOrd.eq_of_compare hfile

theorem isInt_of_mem_scores {rows : List Row} (h : ∀ row ∈ rows, row.score.IsInt) :
    ∀ a ∈ rows.map score, a.IsInt := by
  intro a ha
  obtain ⟨row, hrow, rfl⟩ := List.mem_map.1 ha
  exact h row hrow

/-- Rows with integer scores are sorted by that order. -/
theorem mergeSort_cmp {rows : List Row} (h : ∀ row ∈ rows, row.score.IsInt) :
    (rows.mergeSort fun a b => (cmp a b).isLE) =
      rows.mergeSort fun a b => (cmpInts a b).isLE := by
  have hmap := List.map_mergeSort (r := fun a b => (cmp a b).isLE)
    (s := fun a b => (cmpInts a b).isLE) (f := id) fun a ha b hb =>
      congrArg Ordering.isLE (cmp_eq_cmpInts (h a ha) (h b hb))
  rwa [List.map_id, List.map_id] at hmap

end Row

/-! ## Columns of integers -/

theorem Amount.mem_of_mem_distinct {a : Amount} :
    ∀ amounts : List Amount, a ∈ distinct amounts → a ∈ amounts
  | [], h => h
  | b :: amounts, h => by
      unfold distinct at h
      rw [List.eraseDupsBy_cons] at h
      rcases List.mem_cons.1 h with rfl | h
      · exact List.mem_cons_self
      · have hrest := mem_of_mem_distinct (amounts.filter fun c => c.same b = false) h
        exact List.mem_cons_of_mem b (List.mem_filter.1 hrest).1
termination_by amounts => amounts.length
decreasing_by exact Nat.lt_succ_of_le (List.length_filter_le ..)

namespace ScoreSort

/-- Integers alone are never made binary64 numbers. -/
theorem of_ne_reals {scores : List Amount} (h : ∀ a ∈ scores, a.IsInt) : of scores ≠ .reals := by
  have hnone : scores.any Amount.isReal = false := by
    refine List.any_eq_false.2 fun a ha => ?_
    obtain ⟨n, rfl⟩ := h a ha
    exact Bool.false_ne_true
  simp only [of, hnone, Bool.false_eq_true, if_false]
  split
  · exact nofun
  · exact nofun

theorem store_of_ne_reals {sort : ScoreSort} (h : sort ≠ .reals) (a : Amount) :
    sort.store a = a := by
  cases sort with
  | words => rfl
  | reals => exact absurd rfl h
  | mixed => rfl

/-- The sort of a column does not depend on the order of the scores. -/
theorem of_perm {scores scores' : List Amount} (h : scores.Perm scores') :
    of scores = of scores' := by
  have hints := h.filterMap Amount.int?
  simp only [of, hints.all_eq, h.any_eq]

/-- Integers can always be ranked. -/
theorem ranks_of_ints {scores : List Amount} (h : ∀ a ∈ scores, a.IsInt) (sort : ScoreSort) :
    sort.ranks scores = true := by
  cases sort with
  | words => rfl
  | reals => rfl
  | mixed =>
      have hsort : of (Amount.distinct scores) ≠ .reals :=
        of_ne_reals fun a ha => h a (Amount.mem_of_mem_distinct scores ha)
      unfold ranks
      cases hof : of (Amount.distinct scores) with
      | words => simp only [hof]
      | reals => exact absurd hof hsort
      | mixed => simp only [hof]

end ScoreSort

namespace Frame

/-- A frame whose scores are integers, and stay such. -/
structure OfInts (frame : Frame) : Prop where
  sort : frame.sort ≠ .reals
  rows : ∀ row ∈ frame.rows, row.score.IsInt

/-- Rows with integer scores are a frame as they are. -/
theorem ofRows_eq {rows : List Row} (h : ∀ row ∈ rows, row.score.IsInt) :
    ofRows rows = { rows := rows, sort := ScoreSort.of (rows.map Row.score) } := by
  have hsort : ScoreSort.of (rows.map Row.score) ≠ .reals :=
    ScoreSort.of_ne_reals (Row.isInt_of_mem_scores h)
  simp only [ofRows, ScoreSort.store_of_ne_reals hsort, List.map_id']

theorem ofInts_ofRows {rows : List Row} (h : ∀ row ∈ rows, row.score.IsInt) :
    (ofRows rows).OfInts := by
  rw [ofRows_eq h]
  exact ⟨ScoreSort.of_ne_reals (Row.isInt_of_mem_scores h), h⟩

/-- The rows of functions that score at least `t`. -/
def reaching (t : Int) (rows : List Row) : List Row :=
  rows.filter fun row => (Amount.int t).le row.score && row.signature != Scope.programSignature

/-- A frame of integers has a summary for every threshold. -/
theorem summarize_of_ofInts {frame : Frame} (h : frame.OfInts) (t : Amount) :
    frame.summarize t = .ok { frame with
      rows := (frame.rows.filter (Row.isHit frame.sort t)).mergeSort fun a b =>
        (Row.cmp a b).isLE } := by
  have hfit : frame.sort.fitThreshold t = .ok t := by
    cases hsort : frame.sort with
    | words => rfl
    | reals => exact absurd hsort h.sort
    | mixed => rfl
  have hints : ∀ row ∈ frame.rows.filter (Row.isHit frame.sort t), row.score.IsInt :=
    fun row hrow => h.rows row (List.mem_filter.1 hrow).1
  have hranks : frame.sort.ranks
      ((frame.rows.filter (Row.isHit frame.sort t)).map Row.score) = true :=
    ScoreSort.ranks_of_ints (Row.isInt_of_mem_scores hints) _
  unfold summarize
  rw [hfit]
  simp only [bind, Except.bind, hranks]
  rfl

/-- **The summary of integers**: a stable sort of the hits. -/
theorem summarize_of_ints {frame : Frame} (h : frame.OfInts) (t : Int) :
    frame.summarize (.int t) = .ok { frame with
      rows := (reaching t frame.rows).mergeSort fun a b => (Row.cmpInts a b).isLE } := by
  have hhits : frame.rows.filter (Row.isHit frame.sort (.int t)) = reaching t frame.rows := by
    refine List.filter_congr fun row _ => ?_
    unfold Row.isHit
    cases frame.sort <;> rfl
  have hints : ∀ row ∈ reaching t frame.rows, row.score.IsInt :=
    fun row hrow => h.rows row (List.mem_filter.1 hrow).1
  rw [summarize_of_ofInts h, hhits, Row.mergeSort_cmp hints]

end Frame

end ScopeScore
