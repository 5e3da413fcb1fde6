import ScopeScore.Proofs.Files.Path
import ScopeScore.Proofs.Report.Rows
import ScopeScore.Proofs.Report.Sorting

set_option autoImplicit false

/-! # The order of files in a report

A report lists the rows of its files one file after the other, so it depends on the order of files.
Its summary does not. Two orders of the same files give the same rows, and rows that tie in a
summary have the same file, so they come from one path only and keep their order
(`Frame.ties_rows_perm`).

**`Frame.summary_of_permuted_files`** says both.
-/

namespace ScopeScore

section Lists

variable {α β : Type} [DecidableEq α] {g : α → List β} {q : α} {xs ys : List α}

/-- If only `q` contributes anything, then as often as it occurs. -/
theorem flatMap_eq_flatten_replicate (h : ∀ x ∈ xs, x ≠ q → g x = []) :
    xs.flatMap g = (List.replicate (xs.count q) (g q)).flatten := by
  induction xs with
  | nil => rfl
  | cons x xs ih =>
      have hrest := ih fun y hy => h y (List.mem_cons_of_mem x hy)
      by_cases hx : x = q
      · subst hx
        rw [List.flatMap_cons, hrest, List.count_cons_self, List.replicate_succ, List.flatten_cons]
      · rw [List.flatMap_cons, h x List.mem_cons_self hx, List.nil_append, hrest,
          List.count_cons_of_ne hx]

theorem flatMap_eq_of_perm (hperm : xs.Perm ys) (h : ∀ y ∈ ys, y ≠ q → g y = []) :
    xs.flatMap g = ys.flatMap g := by
  have hxs : ∀ x ∈ xs, x ≠ q → g x = [] := fun x hx => h x (hperm.mem_iff.1 hx)
  rw [flatMap_eq_flatten_replicate hxs, flatMap_eq_flatten_replicate h, hperm.count_eq]

end Lists

variable {d : Disk} {parse : Parser} {f : Category → Int}

namespace Disk

theorem mem_rowsAt {p : Path} {row : Row} (h : row ∈ d.rowsAt parse f p) :
    row.file = p.toString ∧ row.score.IsInt := by
  cases hread : d.readText p with
  | error e =>
      rw [rowsAt, hread] at h
      cases h
  | ok text =>
      rw [rowsAt_eq hread] at h
      cases htree : Source.treeOf? parse text with
      | none =>
          rw [htree] at h
          cases h
      | some n =>
          rw [htree] at h
          obtain ⟨v, -, rfl⟩ := List.mem_map.1 h
          exact ⟨rfl, _, rfl⟩

end Disk

namespace Frame

/-- **Ties come from one path**, so the order of files does not matter for them. -/
theorem ties_rows_perm {files files' : List Path} (hperm : files'.Perm files)
    (canonical : ∀ p ∈ files, p.Canonical) (t : Int) (x : Row) :
    ties Row.cmpInts x (reaching t (files'.flatMap (d.rowsAt parse f))) =
      ties Row.cmpInts x (reaching t (files.flatMap (d.rowsAt parse f))) := by
  have hsplit : ∀ ps : List Path, ties Row.cmpInts x (reaching t (ps.flatMap (d.rowsAt parse f))) =
      ps.flatMap fun p => ties Row.cmpInts x (reaching t (d.rowsAt parse f p)) := by
    intro ps
    rw [reaching, List.filter_flatMap, ties, List.filter_flatMap]
    rfl
  have hother : ∀ p ∈ files, p ≠ Path.ofString x.file →
      ties Row.cmpInts x (reaching t (d.rowsAt parse f p)) = [] := by
    intro p hp hne
    refine List.filter_eq_nil_iff.2 fun row hrow htie => ?_
    have hfile : row.file = p.toString := (Disk.mem_rowsAt (List.mem_filter.1 hrow).1).1
    have hsame : x.file = row.file := Row.file_eq_of_cmpInts (by simpa using htie)
    apply hne
    rw [hsame, hfile, Path.ofString_toString (canonical p hp)]
  rw [hsplit, hsplit, flatMap_eq_of_perm hperm hother]

theorem isInt_of_mem_rows {files : List Path} :
    ∀ row ∈ files.flatMap (d.rowsAt parse f), row.score.IsInt := by
  intro row hrow
  obtain ⟨p, -, hp⟩ := List.mem_flatMap.1 hrow
  exact (Disk.mem_rowsAt hp).2

/-- The same files in another order have the same summary. -/
theorem summarize_ofRows_perm {files files' : List Path} (hperm : files'.Perm files)
    (canonical : ∀ p ∈ files, p.Canonical) (t : Int) :
    ∃ summary,
      (ofRows (files.flatMap (d.rowsAt parse f))).summarize (.int t) = .ok summary ∧
      (ofRows (files'.flatMap (d.rowsAt parse f))).summarize (.int t) = .ok summary := by
  have hints : ∀ ps : List Path, ∀ row ∈ ps.flatMap (d.rowsAt parse f), row.score.IsInt :=
    fun ps => isInt_of_mem_rows
  have hsort : ScoreSort.of ((files'.flatMap (d.rowsAt parse f)).map Row.score) =
      ScoreSort.of ((files.flatMap (d.rowsAt parse f)).map Row.score) :=
    ScoreSort.of_perm ((hperm.flatMap_right _).map _)
  have hrows : ((reaching t (files'.flatMap (d.rowsAt parse f))).mergeSort
      fun a b => (Row.cmpInts a b).isLE) =
        (reaching t (files.flatMap (d.rowsAt parse f))).mergeSort
          fun a b => (Row.cmpInts a b).isLE :=
    mergeSort_eq_of_ties fun x => ties_rows_perm hperm canonical t x
  refine ⟨_, summarize_of_ints (ofInts_ofRows (hints files)) t, ?_⟩
  rw [summarize_of_ints (ofInts_ofRows (hints files')) t, ofRows_eq (hints files),
    ofRows_eq (hints files'), hrows, hsort]

/-- **Reports and the order of files.** Take some files by the texts of their paths, a path perhaps
several times, and let all of them be readable, with the names in them. An analyzer with integer
weights, whatever it did before, gives the rows that each file has alone, with a fresh analyzer of
the same weights and nothing in the store, in the order of the files. In any other order the files
have the same summary, for every integer threshold. -/
theorem summary_of_permuted_files (d : Disk) (parse : Parser) (a : Analyzer) (h : History)
    (texts : List String) {f : Category → Int} (ints : ∀ c, a.weights.get c = .int (f c))
    (reportable : ∀ p ∈ texts.map Path.ofString, d.Reportable parse p) :
    ∃ rows : Path → List Row,
      (∀ p ∈ texts.map Path.ofString, ∃ frame h₁,
        (ofFiles d parse { weights := a.weights } [p]).run {} = .ok frame h₁ ∧
        frame.rows = rows p) ∧
      ∃ frame h₁,
        (ofFiles d parse a (texts.map Path.ofString)).run h = .ok frame h₁ ∧
        frame.rows = (texts.map Path.ofString).flatMap rows ∧
        ∀ (files : List Path) (b : Analyzer) (h' : History),
          files.Perm (texts.map Path.ofString) → b.weights = a.weights →
          ∃ frame' h₂, (ofFiles d parse b files).run h' = .ok frame' h₂ ∧
            ∀ t : Int, ∃ summary, frame.summarize (.int t) = .ok summary ∧
              frame'.summarize (.int t) = .ok summary := by
  have canonical : ∀ p ∈ texts.map Path.ofString, p.Canonical := by
    intro p hp
    obtain ⟨text, -, rfl⟩ := List.mem_map.1 hp
    exact Path.canonical_ofString text
  refine ⟨d.rowsAt parse f, ?_, ?_⟩
  · intro p hp
    obtain ⟨h₁, hrun⟩ := run_ofFiles { weights := a.weights } ints [p]
      (fun q hq => reportable q (List.mem_singleton.1 hq ▸ hp)) {}
    refine ⟨_, h₁, hrun, ?_⟩
    rw [ofRows_eq isInt_of_mem_rows]
    exact List.flatMap_singleton ..
  · obtain ⟨h₁, hrun⟩ := run_ofFiles a ints _ reportable h
    refine ⟨_, h₁, hrun, ?_, ?_⟩
    · rw [ofRows_eq isInt_of_mem_rows]
    · intro files b h' hperm hweights
      obtain ⟨h₂, hrun'⟩ := run_ofFiles b (fun c => hweights ▸ ints c) files
        (fun p hp => reportable p (hperm.mem_iff.1 hp)) h'
      exact ⟨_, h₂, hrun', fun t => summarize_ofRows_perm hperm canonical t⟩

/-- A disk with two files of the same text. -/
def sampleDisk : Disk := { root := .folder "" [.file "a.js" [120], .file "b.js" [120]] }

/-- A program with the functions `f` and `g` on one line, which score the same. -/
def tiedTree : Node :=
  let node (id : Nat) (kind : Kind) (field : Option String) (text : Option (List UInt8))
      (children : List Node) : Node :=
    .node { id, kind, named := true, field, row := 0, text } children
  let function (id : Nat) (name : List UInt8) : Node :=
    node id "function_declaration" none none
      [node (id + 1) "identifier" (some "name") (some name) [],
        node (id + 2) "if_statement" none none []]
  node 0 "program" none none [function 1 [102], function 4 [103]]

/-- Two orders of three paths, one of them repeated, have the same summary. The rows of the repeated
path tie, and stand there as the file has them, once for each time. -/
theorem summary_sampleDisk :
    let parse : Parser := fun _ => { root := tiedTree, patched := false }
    ∃ frame h₁ frame' h₂ summary,
      (ofFiles sampleDisk parse {} (["b.js", "a.js", "b.js"].map Path.ofString)).run {} =
        .ok frame h₁ ∧
      (ofFiles sampleDisk parse {} (["a.js", "b.js", "b.js"].map Path.ofString)).run {} =
        .ok frame' h₂ ∧
      frame.summarize (.int 10) = .ok summary ∧ frame'.summarize (.int 10) = .ok summary ∧
      summary.rows.map (fun row => (row.points, row.file, row.location, row.signature)) =
        [(10, "a.js", 1, "f"), (10, "a.js", 1, "g"), (10, "b.js", 1, "f"), (10, "b.js", 1, "g"),
          (10, "b.js", 1, "f"), (10, "b.js", 1, "g")] := by
  intro parse
  have hnames : tiedTree.Nameable := by
    have hall : ∀ v ∈ tiedTree.openings, (v.signature []).isOk = true := by decide
    exact fun v hv => isOk_iff_exists.1 (hall v hv)
  have hread : ∀ text ∈ ["b.js", "a.js", "b.js"],
      sampleDisk.readText (Path.ofString text) = .ok "x" := by decide
  have reportable : ∀ p ∈ ["b.js", "a.js", "b.js"].map Path.ofString,
      sampleDisk.Reportable parse p := by
    intro p hp
    obtain ⟨text, htext, rfl⟩ := List.mem_map.1 hp
    refine ⟨"x", hread text htext, fun n hn => ?_⟩
    obtain rfl : tiedTree = n := Option.some.inj hn
    exact hnames
  have hswap : (["a.js", "b.js", "b.js"].map Path.ofString).Perm
      (["b.js", "a.js", "b.js"].map Path.ofString) := (List.Perm.swap ..).map _
  obtain ⟨-, -, frame, h₁, hrun, -, hperm⟩ := summary_of_permuted_files sampleDisk parse {} {}
    ["b.js", "a.js", "b.js"] Weights.get_default_int reportable
  obtain ⟨frame', h₂, hrun', hsummary⟩ := hperm _ {} {} hswap rfl
  obtain ⟨summary, hframe, hframe'⟩ := hsummary 10
  refine ⟨frame, h₁, frame', h₂, summary, hrun, hrun', hframe, hframe', ?_⟩
  -- in the second order the hits are sorted as they are
  obtain ⟨h₃, hrows⟩ := run_ofFiles {} Weights.get_default_int
    (["a.js", "b.js", "b.js"].map Path.ofString) (fun p hp => reportable p (hswap.mem_iff.1 hp)) {}
  rw [hrun'] at hrows
  obtain rfl := (EStateM.Result.ok.inj hrows).1
  rw [summarize_of_ints (ofInts_ofRows isInt_of_mem_rows), List.mergeSort_of_pairwise] at hframe'
  · obtain rfl := Except.ok.inj hframe'
    decide +kernel
  · decide +kernel

end Frame

end ScopeScore
