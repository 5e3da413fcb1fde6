import ScopeScore.Proofs.Report.Sorting
import Mathlib.Data.List.Basic

set_option autoImplicit false

/-! # Summaries and their thresholds

A frame with integer scores has a summary for every integer threshold. It is known from four things:
which rows it has, each as often as the frame has it, the order in which they stand, and that rows
which agree in all that the order looks at (`Row.key`) stand as they did in the frame.

The score is what the order looks at first, so the rows that reach a higher threshold stand in front
of the others. Sorting and filtering can be done in either order (`filter_mergeSort`), and hence a
higher threshold gives a beginning of the same list.

**`Frame.summary_is_stable_sort`** says all this.
-/

namespace ScopeScore

/-! ## Filtering what is sorted -/

/-- If no element with the property stands behind one without it, those with it come first. -/
theorem filter_isPrefix_of_pairwise {α : Type} {p : α → Bool} {l : List α}
    (h : l.Pairwise fun a b => p b = true → p a = true) : l.filter p <+: l := by
  induction l with
  | nil => simp
  | cons a l ih =>
      obtain ⟨ha, hl⟩ := List.pairwise_cons.1 h
      by_cases hpa : p a = true
      · rw [List.filter_cons_of_pos hpa, List.cons_prefix_cons]
        exact ⟨rfl, ih hl⟩
      · -- nothing behind `a` has the property either
        have hnone : l.filter p = [] := by
          apply List.filter_eq_nil_iff.2
          intro b hb hpb
          exact hpa (ha b hb hpb)
        rw [List.filter_cons_of_neg hpa, hnone]
        exact List.nil_prefix

/-- **Sorting and filtering can be done in either order**, because sorting is stable. -/
theorem filter_mergeSort {α : Type} {cmp : α → α → Ordering} [Std.TransCmp cmp] (p : α → Bool)
    (l : List α) :
    (l.mergeSort fun a b => (cmp a b).isLE).filter p =
      (l.filter p).mergeSort fun a b => (cmp a b).isLE := by
  apply eq_of_ties_eq ((pairwise_mergeSort_isLE l).filter p) (pairwise_mergeSort_isLE (l.filter p))
  intro x
  calc ties cmp x ((l.mergeSort fun a b => (cmp a b).isLE).filter p)
      = (ties cmp x (l.mergeSort fun a b => (cmp a b).isLE)).filter p := List.filter_comm ..
    _ = (ties cmp x l).filter p := by rw [ties_mergeSort]
    _ = ties cmp x (l.filter p) := List.filter_comm ..
    _ = ties cmp x ((l.filter p).mergeSort fun a b => (cmp a b).isLE) := by rw [ties_mergeSort]

/-! ## The order of rows -/

namespace Row

/-- What the order of a summary looks at. -/
def key (row : Row) : Int × String × Int := (row.points, row.file, row.location)

/-- May `a` stand before `b` in a summary? It may if it scores more. If both score the same it may if
its file comes first, the texts compared character by character, and in the same file if it does not
start further down. -/
def Precedes (a b : Row) : Prop :=
  b.points < a.points ∨
    b.points = a.points ∧ (a.file.toList < b.file.toList ∨
      a.file = b.file ∧ a.location ≤ b.location)

theorem isLE_cmpInts_iff {a b : Row} : (cmpInts a b).isLE = true ↔ a.Precedes b := by
  have hpoints : compareOn points b a = compare b.points a.points := rfl
  have hlocation : compareOn location a b = compare a.location b.location := rfl
  have hless : compareOn file a b = .lt ↔ a.file.toList < b.file.toList := by
    show compareOfLessAndEq a.file b.file = .lt ↔ _
    exact compareOfLessAndEq_eq_lt
  have hsame : compareOn file a b = .eq ↔ a.file = b.file := Std.compare_eq_iff_eq
  unfold cmpInts Precedes
  simp only [compareLex, Ordering.isLE_then_iff_or, hpoints, hlocation, hless, hsame,
    Int.compare_eq_lt, Int.compare_eq_eq, Int.isLE_compare]

theorem cmpInts_eq_iff {a b : Row} : cmpInts a b = .eq ↔ b.key = a.key := by
  unfold cmpInts compareLex
  rw [Ordering.then_eq_eq, Ordering.then_eq_eq]
  simp only [compareOn, Std.compare_eq_iff_eq, key, Prod.mk.injEq]
  constructor
  · rintro ⟨hpoints, hfile, hlocation⟩
    exact ⟨hpoints, hfile.symm, hlocation.symm⟩
  · rintro ⟨hpoints, hfile, hlocation⟩
    exact ⟨hpoints, hfile.symm, hlocation.symm⟩

theorem points_le_of_precedes {a b : Row} (h : a.Precedes b) : b.points ≤ a.points := by
  unfold Precedes at h
  omega

end Row

/-! ## Rows that reach a threshold -/

namespace Frame

variable {rows : List Row} {t u : Int}

/-- Rows with integer scores reach a threshold if it is at most their score. -/
theorem reaching_eq (h : ∀ row ∈ rows, row.score.IsInt) (t : Int) :
    reaching t rows =
      rows.filter fun row => t ≤ row.points ∧ row.signature ≠ Scope.programSignature := by
  apply List.filter_congr
  intro row hrow
  obtain ⟨n, hn⟩ := h row hrow
  have hpoints : row.points = n := by
    rw [Row.points, hn]
    rfl
  rw [hn, hpoints, Amount.le_int, Bool.decide_and, decide_not, bne, beq_eq_decide]

/-- What reaches a threshold is found among the rows that reach a lower one. -/
theorem reaching_reaching (h : ∀ row ∈ rows, row.score.IsInt) (hle : t ≤ u) :
    reaching u (reaching t rows) = reaching u rows := by
  unfold reaching
  rw [List.filter_filter]
  apply List.filter_congr
  intro row hrow
  obtain ⟨n, hn⟩ := h row hrow
  rw [hn, Amount.le_int, Amount.le_int]
  by_cases hu : u ≤ n
  · have ht : t ≤ n := by omega
    simp [hu, ht]
  · simp [hu]

/-- The rows of the summary for a threshold. -/
def sorted (t : Int) (rows : List Row) : List Row :=
  (reaching t rows).mergeSort fun a b => (Row.cmpInts a b).isLE

theorem sorted_perm (t : Int) (rows : List Row) : (sorted t rows).Perm (reaching t rows) :=
  List.mergeSort_perm ..

theorem mem_of_mem_sorted {row : Row} (h : row ∈ sorted t rows) :
    row ∈ rows ∧ row.signature ≠ Scope.programSignature := by
  have hreaching : row ∈ reaching t rows := (sorted_perm t rows).mem_iff.1 h
  unfold reaching at hreaching
  simp only [List.mem_filter, Bool.and_eq_true, bne_iff_ne] at hreaching
  exact ⟨hreaching.1, hreaching.2.2⟩

theorem sorted_pairwise (t : Int) (rows : List Row) : (sorted t rows).Pairwise Row.Precedes := by
  have hsorted : (sorted t rows).Pairwise fun a b => (Row.cmpInts a b).isLE = true :=
    pairwise_mergeSort_isLE (reaching t rows)
  apply hsorted.imp
  intro a b hab
  exact Row.isLE_cmpInts_iff.1 hab

/-- Rows with the same key stand in the summary as they did before. -/
theorem filter_key_sorted (t : Int) (rows : List Row) (key : Int × String × Int) :
    (sorted t rows).filter (·.key = key) = (reaching t rows).filter (·.key = key) := by
  by_cases hrow : ∃ x ∈ reaching t rows, x.key = key
  · -- the rows with this key are those that tie with `x`
    obtain ⟨x, -, rfl⟩ := hrow
    have hties : ∀ l : List Row, l.filter (·.key = x.key) = ties Row.cmpInts x l := by
      intro l
      apply List.filter_congr
      intro row _
      rw [decide_eq_decide, Row.cmpInts_eq_iff]
    rw [hties, hties, sorted, ties_mergeSort]
  · have hnone : ∀ l : List Row, l.Perm (reaching t rows) → l.filter (·.key = key) = [] := by
      intro l hl
      apply List.filter_eq_nil_iff.2
      intro row hmem hkey
      exact hrow ⟨row, hl.mem_iff.1 hmem, by simpa using hkey⟩
    rw [hnone _ (sorted_perm t rows), hnone _ (List.Perm.refl _)]

/-- What reaches a higher threshold can be found before or after sorting. -/
theorem reaching_sorted (h : ∀ row ∈ rows, row.score.IsInt) (hle : t ≤ u) :
    reaching u (sorted t rows) = sorted u rows := by
  calc reaching u (sorted t rows)
      = (reaching u (reaching t rows)).mergeSort fun a b => (Row.cmpInts a b).isLE :=
        filter_mergeSort ..
    _ = sorted u rows := by rw [reaching_reaching h hle, sorted]

/-- In a summary the rows that reach a higher threshold stand in front of the others. -/
theorem reaching_sorted_isPrefix (h : ∀ row ∈ rows, row.score.IsInt) (t u : Int) :
    reaching u (sorted t rows) <+: sorted t rows := by
  have hints : ∀ row ∈ sorted t rows, row.score.IsInt := fun row hrow =>
    h row (mem_of_mem_sorted hrow).1
  have hscore : reaching u (sorted t rows) =
      (sorted t rows).filter fun row => u ≤ row.points := by
    rw [reaching_eq hints]
    apply List.filter_congr
    intro row hrow
    simp [(mem_of_mem_sorted hrow).2]
  rw [hscore]
  apply filter_isPrefix_of_pairwise
  apply (sorted_pairwise t rows).imp
  intro a b hab hb
  have hle := Row.points_le_of_precedes hab
  simp only [decide_eq_true_eq] at hb ⊢
  omega

/-- **Summaries are stable sorts, and a higher threshold cuts them off.** A frame of integers has a
summary for every integer threshold `t`.

* Its rows are those of the frame that score at least `t` and are not called as programs are, each as
  often as it is there.
* They stand in order, and those that the order cannot tell apart stand as in the frame.
* For a threshold `u` that is not lower, the summary is a beginning of this one. It is also the
  summary of this one. -/
theorem summary_is_stable_sort (frame : Frame) (ints : frame.OfInts) (t : Int) :
    ∃ rows, frame.summarize (.int t) = .ok { frame with rows := rows } ∧
      rows.Perm (frame.rows.filter fun row =>
        t ≤ row.points ∧ row.signature ≠ Scope.programSignature) ∧
      rows.Pairwise Row.Precedes ∧
      (∀ key, rows.filter (·.key = key) = (frame.rows.filter fun row =>
        t ≤ row.points ∧ row.signature ≠ Scope.programSignature).filter (·.key = key)) ∧
      ∀ u, t ≤ u → ∃ rows',
        frame.summarize (.int u) = .ok { frame with rows := rows' } ∧ rows' <+: rows ∧
        ({ frame with rows := rows } : Frame).summarize (.int u) =
          .ok { frame with rows := rows' } := by
  refine ⟨sorted t frame.rows, summarize_of_ints ints t, ?_, sorted_pairwise t frame.rows, ?_, ?_⟩
  · rw [← reaching_eq ints.rows]
    exact sorted_perm t frame.rows
  · intro key
    rw [← reaching_eq ints.rows]
    exact filter_key_sorted t frame.rows key
  · intro u hle
    have hcut : reaching u (sorted t frame.rows) = sorted u frame.rows :=
      reaching_sorted ints.rows hle
    refine ⟨sorted u frame.rows, summarize_of_ints ints u, ?_, ?_⟩
    · rw [← hcut]
      exact reaching_sorted_isPrefix ints.rows t u
    · -- the rows of the lower threshold are integers too, and what is cut off from them is sorted
      have hints : ∀ row ∈ sorted t frame.rows, row.score.IsInt := fun row hrow =>
        ints.rows row (mem_of_mem_sorted hrow).1
      have hsorted : sorted u (sorted t frame.rows) = sorted u frame.rows := by
        unfold sorted at hcut ⊢
        rw [hcut, List.mergeSort_of_pairwise (pairwise_mergeSort_isLE _)]
      have hframe : OfInts { frame with rows := sorted t frame.rows } := ⟨ints.sort, hints⟩
      rw [summarize_of_ints hframe u, ← hsorted]
      rfl

/-- Rows of two files. Two functions of one of them start on the same line and score the same. -/
def sampleFrame : Frame where
  rows :=
    [{ file := "b.js", signature := "f", location := 3, depth := 1, score := .int 10 },
      { file := "a.js", signature := "*", location := 0, depth := 0, score := .int 60 },
      { file := "a.js", signature := "g", location := 1, depth := 1, score := .int 10 },
      { file := "a.js", signature := "h", location := 1, depth := 2, score := .int 10 },
      { file := "a.js", signature := "i", location := 7, depth := 1, score := .int 30 }]

/-- A threshold of 10 leaves out the program alone and keeps `g` before `h`. For a threshold of 11 a
beginning of these four rows is left. -/
theorem summary_sampleFrame :
    ∃ rows, sampleFrame.summarize (.int 10) = .ok { sampleFrame with rows := rows } ∧
      rows.length = 4 ∧ rows.Pairwise Row.Precedes ∧
      (rows.filter (·.key = (10, "a.js", 1))).map Row.signature = ["g", "h"] ∧
      ∃ rows', sampleFrame.summarize (.int 11) = .ok { sampleFrame with rows := rows' } ∧
        rows' <+: rows := by
  have hints : sampleFrame.OfInts := by
    refine ⟨by decide, fun row hrow => ?_⟩
    simp only [sampleFrame, List.mem_cons, List.not_mem_nil, or_false] at hrow
    rcases hrow with rfl | rfl | rfl | rfl | rfl <;> exact ⟨_, rfl⟩
  obtain ⟨rows, hrows, hperm, hpairwise, hkeys, hcut⟩ := summary_is_stable_sort sampleFrame hints 10
  obtain ⟨rows', hrows', hprefix, -⟩ := hcut 11 (by decide)
  refine ⟨rows, hrows, hperm.length_eq.trans (by decide), hpairwise, ?_, rows', hrows', hprefix⟩
  rw [hkeys]
  decide

end Frame

end ScopeScore
