import ScopeScore.Proofs.Analyzer.Slice
import ScopeScore.Proofs.Metrics.Totals
import ScopeScore.Proofs.Report.Findings

set_option autoImplicit false

/-! # Nesting and the hits of a summary

A function is charged to the scope around it, and a score counts all that is inside. So if functions
cost something and nothing costs less than nothing, scores fall strictly from outside to inside, by
the cost of a function for each step (**`Node.costInside_add_le`**).

The hits of a summary are those of the findings that are functions and reach the threshold, sorted
(`Finding.hits`). Together: with a function all functions around it are hits too, and they come
before it (**`Frame.hits_closed_outward`**).
-/

namespace ScopeScore

open Spot

namespace Spot

/-- What is above a spot and opens a scope is the nearest such spot or above it. -/
theorem eq_or_mem_above_of_enclosing? {u v w : Spot} (hu : u ∈ v.above) (hscope : u.isScope = true)
    (henc : v.enclosing? = some w) : u = w ∨ u ∈ w.above := by
  have hw : w ∈ v.above := mem_above_of_enclosing? henc
  by_cases hwu : w ∈ u.above
  · -- then `w` would not be the nearest
    have hinner : w.depth < u.depth := depth_lt_of_mem_above hwu (isScope_of_enclosing? henc)
    have houter : u.depth < v.depth := depth_lt_of_mem_above hu hscope
    have hstep : v.depth = w.depth + 1 := depth_eq_of_enclosing? henc
    omega
  · by_cases huw : u ∈ w.above
    · exact Or.inr huw
    · exact Or.inl (eq_of_not_mem_above (List.mem_cons_of_mem v hu) (List.mem_cons_of_mem v hw)
        huw hwu)

theorem exists_enclosing? {u v : Spot} (hu : u ∈ v.above) (hscope : u.isScope = true) :
    ∃ w, v.enclosing? = some w :=
  Option.isSome_iff_exists.1 (List.find?_isSome.2 ⟨u, hu, hscope⟩)

end Spot

/-! ## Scores fall from outside to inside -/

namespace Node

variable {f : Category → Int} {n : Node} {u v : Spot}

/-- Is no node below the root a program? -/
def ProgramAtRoot (n : Node) : Prop :=
  ∀ v ∈ n.openings, v ≠ .start n → v.node.kind ≠ Kind.program

instance (n : Node) : Decidable n.ProgramAtRoot :=
  inferInstanceAs (Decidable (∀ v ∈ n.openings, v ≠ .start n → v.node.kind ≠ Kind.program))

theorem cost_of_isFunction (h : n.kind.isFunction = true) : n.cost f = f .fn := by
  simp [cost, tariff_of_isFunction h]

/-- What is inside another scope is a function, unless there are programs inside. -/
theorem ProgramAtRoot.isFunction (h : n.ProgramAtRoot) (hv : v ∈ n.openings) (hu : u ∈ v.above) :
    v.node.kind.isFunction = true := by
  have hscope : v.node.kind.isScope = true := (mem_scopesAmong.1 hv).2
  have hstart : v ≠ .start n := by
    rintro rfl
    simp at hu
  exact ((Kind.isScope_iff _).1 hscope).resolve_right (h v hv hstart)

/-- **One step of nesting**: a scope scores at least what a function directly inside scores, and the
cost of that function. -/
theorem costInside_add_le_of_enclosing? (nonneg : ∀ c, 0 ≤ f c) (hv : v ∈ n.openings)
    (hfunction : v.node.kind.isFunction = true) (henc : v.enclosing? = some u) :
    n.costInside f v + f .fn ≤ n.costInside f u := by
  have hown : f .fn ≤ ((fallingInto u n.walked).map fun t => t.node.cost f).sum := by
    rw [← cost_of_isFunction (f := f) hfunction]
    apply List.single_le_sum
    · intro x hx
      obtain ⟨t, -, rfl⟩ := List.mem_map.1 hx
      exact cost_nonneg nonneg t.node
    · exact List.mem_map_of_mem (mem_fallingInto.2 ⟨mem_walked_of_mem_openings hv, henc⟩)
  have hinner : n.costInside f v ≤ ((fallingInto u n.openings).map (n.costInside f)).sum := by
    apply List.single_le_sum
    · intro x hx
      obtain ⟨t, -, rfl⟩ := List.mem_map.1 hx
      exact costInside_nonneg nonneg n t
    · exact List.mem_map_of_mem (mem_fallingInto.2 ⟨hv, henc⟩)
  rw [costInside_eq f (isScope_of_enclosing? henc)]
  omega

/-- **Scores fall from outside to inside**, by the cost of a function for each step. -/
theorem costInside_add_le (nonneg : ∀ c, 0 ≤ f c) (hroot : n.ProgramAtRoot) (u v : Spot)
    (hv : v ∈ n.openings) (hu : u ∈ v.above) (hscope : u.isScope = true) :
    n.costInside f v + f .fn * ((v.depth : Int) - u.depth) ≤ n.costInside f u := by
  obtain ⟨w, henc⟩ := exists_enclosing? hu hscope
  have hstep : n.costInside f v + f .fn ≤ n.costInside f w :=
    costInside_add_le_of_enclosing? nonneg hv (hroot.isFunction hv hu) henc
  have hdepth : v.depth = w.depth + 1 := depth_eq_of_enclosing? henc
  rcases eq_or_mem_above_of_enclosing? hu hscope henc with rfl | huw
  · have hone : (v.depth : Int) - u.depth = 1 := by omega
    rw [hone, mul_one]
    exact hstep
  · have hw : w ∈ n.openings := mem_openings_of_enclosing? (mem_walked_of_mem_openings hv) henc
    have hrest := costInside_add_le nonneg hroot u w hw huw hscope
    have hmore : (v.depth : Int) - u.depth = 1 + ((w.depth : Int) - u.depth) := by omega
    calc n.costInside f v + f .fn * ((v.depth : Int) - u.depth)
        = (n.costInside f v + f .fn) + f .fn * ((w.depth : Int) - u.depth) := by
          rw [hmore, mul_add, mul_one, add_assoc]
      _ ≤ n.costInside f w + f .fn * ((w.depth : Int) - u.depth) := by omega
      _ ≤ n.costInside f u := hrest
termination_by v.depth

end Node

/-! ## Hits -/

/-- A summary never goes up. -/
theorem Row.points_le_of_isLE {a b : Row} (h : (cmpInts a b).isLE = true) :
    b.points ≤ a.points := by
  by_contra hlt
  have hfirst : compare b.points a.points = .gt := Int.compare_eq_gt.2 (by omega)
  have hcmp : cmpInts a b = .gt := by
    show (compare b.points a.points).then _ = .gt
    rw [hfirst]
    rfl
  rw [hcmp] at h
  cases h

namespace Finding

variable {d : Disk} {parse : Parser} {f : Category → Int} {files : List Path} {u r : Finding}

/-- Those of some findings that are functions and score at least `t`, the worst first. -/
def hits (f : Category → Int) (t : Int) (findings : List Finding) : List Finding :=
  (findings.filter fun r => r.IsFunction ∧ t ≤ r.score f).mergeSort fun a b =>
    (Row.cmpInts (a.row f) (b.row f)).isLE

theorem mem_hits {t : Int} {findings : List Finding} :
    r ∈ hits f t findings ↔ r ∈ findings ∧ r.IsFunction ∧ t ≤ r.score f := by
  simp [hits]

theorem hits_nodup {t : Int} {findings : List Finding} (h : findings.Nodup) :
    (hits f t findings).Nodup :=
  (List.mergeSort_perm ..).nodup_iff.2 (h.filter _)

/-- The hits among the rows are the rows of the hits. -/
theorem map_row_hits (legible : parse.Legible) (plain : ∀ p ∈ files, d.Plain parse p) (t : Int) :
    (hits f t (d.findings parse files)).map (row f) =
      (Frame.reaching t ((d.findings parse files).map (row f))).mergeSort fun a b =>
        (Row.cmpInts a b).isLE := by
  have hfilter : Frame.reaching t ((d.findings parse files).map (row f)) =
      ((d.findings parse files).filter fun r => r.IsFunction ∧ t ≤ r.score f).map (row f) := by
    rw [Frame.reaching, List.filter_map]
    refine congrArg (List.map (row f)) (List.filter_congr fun r hr => ?_)
    have hfunction := signature_row_ne_marker_iff legible plain hr f
    rw [Function.comp_apply, score_row, Amount.le_int, Bool.eq_iff_iff]
    simp only [Bool.and_eq_true, decide_eq_true_eq, bne_iff_ne]
    rw [hfunction, and_comm]
  rw [hfilter, hits]
  exact List.map_mergeSort fun a _ b _ => rfl

/-- In a sorted list a finding that scores more stands before one that scores less. -/
theorem mem_before_of_score_lt {t : Int} {findings before after : List Finding}
    (hsplit : hits f t findings = before ++ r :: after) (hu : u ∈ hits f t findings)
    (hlt : r.score f < u.score f) : u ∈ before := by
  have hsorted : ((hits f t findings).map (row f)).Pairwise
      fun a b => (Row.cmpInts a b).isLE = true := by
    rw [hits, List.map_mergeSort (s := fun a b => (Row.cmpInts a b).isLE) fun a _ b _ => rfl]
    exact pairwise_mergeSort_isLE _
  rw [hsplit] at hu hsorted
  rcases List.mem_append.1 hu with hu | hu
  · exact hu
  · exfalso
    rcases List.mem_cons.1 hu with rfl | hu
    · omega
    · have hrest := (List.pairwise_append.1 (List.pairwise_map.1 hsorted)).2.1
      have hle := Row.points_le_of_isLE ((List.pairwise_cons.1 hrest).1 u hu)
      rw [points_row, points_row] at hle
      omega

/-- A finding around another one scores more, by the cost of a function for each step. -/
theorem score_add_le (nonneg : ∀ c, 0 ≤ f c) (hr : r ∈ d.findings parse files)
    (hu : u ∈ d.findings parse files) (henc : u.Encloses r) (hroot : r.tree.ProgramAtRoot) :
    r.score f + f .fn * ((r.depth : Int) - u.depth) ≤ u.score f := by
  obtain ⟨hpath, htree, hspot⟩ := Disk.mem_findings.1 hr
  obtain ⟨hpath', htree', hspot'⟩ := Disk.mem_findings.1 hu
  rw [henc.1, hpath, Option.some.injEq] at hpath'
  rw [← hpath', htree, Option.some.injEq] at htree'
  unfold score
  rw [← htree'] at hspot' ⊢
  exact Node.costInside_add_le nonneg hroot u.spot r.spot hspot henc.2 (mem_scopesAmong.1 hspot').2

end Finding

namespace Frame

variable {d : Disk} {parse : Parser} {f : Category → Int} {files : List Path}

/-- The summary of readable files lists the hits among their findings. -/
theorem exists_summary_eq_hits (a : Analyzer) (h : History)
    (ints : ∀ c, a.weights.get c = .int (f c)) (legible : parse.Legible)
    (plain : ∀ p ∈ files, d.Plain parse p) (t : Int) :
    ∃ frame h₁ summary, (ofFiles d parse a files).run h = .ok frame h₁ ∧
      frame.rows = (d.findings parse files).map (Finding.row f) ∧
      frame.summarize (.int t) = .ok summary ∧
      summary.rows = (Finding.hits f t (d.findings parse files)).map (Finding.row f) := by
  obtain ⟨h₁, hrun⟩ := run_ofFiles a ints files
    (fun p hp => Disk.reportable_of_readable legible (plain p hp).readable) h
  have hrows : (ofRows (files.flatMap (d.rowsAt parse f))).rows =
      (d.findings parse files).map (Finding.row f) := by
    rw [ofRows_eq isInt_of_mem_rows, Disk.map_row_findings]
  refine ⟨_, h₁, _, hrun, hrows, summarize_of_ints (ofInts_ofRows isInt_of_mem_rows) t, ?_⟩
  rw [hrows]
  exact (Finding.map_row_hits legible plain t).symm

/-- **Hits are closed outward and listed outside in.** Take files that can be read, whose trees have
a program at most at the root and no identifier that reads as its marker. Let the weights be
integers, none of them negative and that of a function positive. Then the files have a frame, with a
row for each finding, and for every integer threshold a summary, whose rows are those of a list of
findings:

* the functions that score at least the threshold are in it, each once, and nothing else;
* with a finding every function around it is in the list, and before it.

Whatever the threshold, a finding scores at least what a finding inside it scores, and the cost of a
function for each step between them. -/
theorem hits_closed_outward (d : Disk) (parse : Parser) (a : Analyzer) (h : History)
    (files : List Path) {f : Category → Int} (ints : ∀ c, a.weights.get c = .int (f c))
    (nonneg : ∀ c, 0 ≤ f c) (positive : 0 < f .fn) (legible : parse.Legible)
    (plain : ∀ p ∈ files, d.Plain parse p)
    (rooted : ∀ p ∈ files, ∀ n, d.treeAt? parse p = some n → n.ProgramAtRoot) (t : Int) :
    let findings := d.findings parse files
    ∃ frame h₁ summary hits, (ofFiles d parse a files).run h = .ok frame h₁ ∧
      frame.rows = findings.map (Finding.row f) ∧
      frame.summarize (.int t) = .ok summary ∧
      summary.rows = hits.map (Finding.row f) ∧ hits.Nodup ∧
      (∀ r, r ∈ hits ↔ r ∈ findings ∧ r.IsFunction ∧ t ≤ r.score f) ∧
      (∀ before r after, hits = before ++ r :: after →
        ∀ u ∈ findings, u.IsFunction → u.Encloses r → u ∈ before) ∧
      ∀ r ∈ findings, ∀ u ∈ findings, u.Encloses r →
        r.score f + f .fn * ((r.depth : Int) - u.depth) ≤ u.score f := by
  intro findings
  have hfall : ∀ r ∈ findings, ∀ u ∈ findings, u.Encloses r →
      r.score f + f .fn * ((r.depth : Int) - u.depth) ≤ u.score f := by
    intro r hr u hu henc
    exact Finding.score_add_le nonneg hr hu henc
      (rooted r.path (Disk.path_mem_of_mem_findings hr) r.tree (Disk.mem_findings.1 hr).2.1)
  obtain ⟨frame, h₁, summary, hrun, hrows, hsummary, hhits⟩ :=
    exists_summary_eq_hits a h ints legible plain t
  refine ⟨frame, h₁, summary, _, hrun, hrows, hsummary, hhits,
    Finding.hits_nodup (d.findings_nodup parse files), fun r => Finding.mem_hits, ?_, hfall⟩
  intro before r after hsplit u hu hfunction henc
  have hr : r ∈ Finding.hits f t findings := hsplit ▸ List.mem_append_right _ List.mem_cons_self
  obtain ⟨hmem, -, hreach⟩ := Finding.mem_hits.1 hr
  -- the depths differ, so the scores do
  have hlt : r.score f < u.score f := by
    have hdepth : u.depth < r.depth := by
      refine depth_lt_of_mem_above henc.2 ?_
      exact (mem_scopesAmong.1 (Disk.mem_findings.1 hu).2.2).2
    have hsteps : 0 < f .fn * ((r.depth : Int) - u.depth) := Int.mul_pos positive (by omega)
    have hle := hfall r hmem u hu henc
    omega
  exact Finding.mem_before_of_score_lt hsplit
    (Finding.mem_hits.2 ⟨hu, hfunction, by omega⟩) hlt

/-- In a file with a function inside a function, the outer one comes before the inner one. -/
theorem hits_nestedTree :
    let parse : Parser := fun _ => { root := Analyzer.nestedTree, patched := false }
    ∃ frame h₁ summary hits,
      (ofFiles sampleDisk parse {} [Path.ofString "a.js"]).run {} = .ok frame h₁ ∧
      frame.summarize (.int 1) = .ok summary ∧
      summary.rows = hits.map (Finding.row Category.defaultPrice) ∧
      ∃ before r after u, hits = before ++ r :: after ∧ r.depth = 2 ∧ u ∈ before ∧
        u.IsFunction ∧ u.Encloses r := by
  intro parse
  have plain : ∀ p ∈ [Path.ofString "a.js"], sampleDisk.Plain parse p := by
    intro p hp
    obtain rfl := List.mem_singleton.1 hp
    refine ⟨⟨"x", by decide⟩, fun n hn => ?_⟩
    obtain rfl : Analyzer.nestedTree = n := Option.some.inj hn
    decide
  have rooted : ∀ p ∈ [Path.ofString "a.js"], ∀ n, sampleDisk.treeAt? parse p = some n →
      n.ProgramAtRoot := by
    intro p hp n hn
    obtain rfl := List.mem_singleton.1 hp
    obtain rfl : Analyzer.nestedTree = n := Option.some.inj hn
    decide
  obtain ⟨frame, h₁, summary, hits, hrun, -, hsummary, hrows, -, hmem, hclosed, -⟩ :=
    hits_closed_outward sampleDisk parse {} {} [Path.ofString "a.js"] Weights.get_default
      Category.defaultPrice_nonneg (by decide) (fun _ => by decide) plain rooted 1
  have hpair : ∃ r ∈ sampleDisk.findings parse [Path.ofString "a.js"],
      ∃ u ∈ sampleDisk.findings parse [Path.ofString "a.js"], r.IsFunction ∧
        1 ≤ r.score Category.defaultPrice ∧ r.depth = 2 ∧ u.IsFunction ∧ u.Encloses r := by
    decide
  obtain ⟨r, hr, u, hu, hfunction, hscore, hdepth, houter, henc⟩ := hpair
  obtain ⟨before, after, hsplit⟩ := List.append_of_mem ((hmem r).2 ⟨hr, hfunction, hscore⟩)
  exact ⟨frame, h₁, summary, hits, hrun, hsummary, hrows, before, r, after, u, hsplit, hdepth,
    hclosed before r after hsplit u hu houter henc, houter, henc⟩

end Frame

end ScopeScore
