import ScopeScore.Proofs.Report.Order
import ScopeScore.Proofs.Scope.Names

set_option autoImplicit false

/-! # The findings of a report

Rows of a report may look alike and still be of different scopes. A `Finding` is a scope of a report
with all that tells it apart: the file, by its place in the list of files since a path may be given
several times, the tree of the file, and the spot of the tree.

* `Disk.findings`: the findings of some files, in the order of the rows.
* **`Disk.map_row_findings`**: the rows of the files are the rows of the findings.
* `Finding.signature_row_ne_marker_iff`: which of them are counted as functions.
-/

namespace ScopeScore

open Spot

/-- A scope of a report. -/
structure Finding where
  /-- Which of the files it is from. -/
  index : Nat
  path : Path
  tree : Node
  spot : Spot
deriving DecidableEq

namespace Finding

/-- What the scope scores, if the categories cost `f`. -/
def score (f : Category → Int) (e : Finding) : Int := e.tree.costInside f e.spot

def depth (e : Finding) : Nat := e.spot.depth

/-- Is the scope that of a function? -/
def IsFunction (e : Finding) : Prop := e.spot.node.kind.isFunction = true

/-- Is `e` inside `u`, in the same file? -/
def Encloses (u e : Finding) : Prop := u.index = e.index ∧ u.spot ∈ e.spot.above

/-- The row of the scope. -/
def row (f : Category → Int) (e : Finding) : Row := e.tree.rowAt e.path.toString f e.spot

instance (e : Finding) : Decidable e.IsFunction := inferInstanceAs (Decidable (_ = true))

instance (u e : Finding) : Decidable (u.Encloses e) := inferInstanceAs (Decidable (_ ∧ _))

@[simp]
theorem score_row (f : Category → Int) (e : Finding) : (e.row f).score = .int (e.score f) := rfl

@[simp]
theorem points_row (f : Category → Int) (e : Finding) : (e.row f).points = e.score f := rfl

end Finding

/-! ## Findings of files -/

namespace Disk

variable {d : Disk} {parse : Parser} {files : List Path} {e : Finding}

/-- The tree of the file at `p`, if the file can be read and is not empty. -/
def treeAt? (d : Disk) (parse : Parser) (p : Path) : Option Node :=
  match d.readText p with
  | .ok text => Source.treeOf? parse text
  | .error _ => none

/-- The findings of the file at `p`, which is the file number `index`. -/
def findingsAt (d : Disk) (parse : Parser) (p : Path) (index : Nat) : List Finding :=
  (d.treeAt? parse p).elim [] fun n =>
    n.openings.map fun v => { index, path := p, tree := n, spot := v }

/-- The findings of some files, one file after the other. -/
def findings (d : Disk) (parse : Parser) (files : List Path) : List Finding :=
  files.zipIdx.flatMap fun (p, index) => d.findingsAt parse p index

theorem mem_findingsAt {p : Path} {index : Nat} :
    e ∈ d.findingsAt parse p index ↔ e.index = index ∧ e.path = p ∧
      d.treeAt? parse p = some e.tree ∧ e.spot ∈ e.tree.openings := by
  unfold findingsAt
  cases d.treeAt? parse p with
  | none => simp
  | some n =>
      simp only [Option.elim_some, List.mem_map, Option.some.injEq]
      constructor
      · rintro ⟨v, hv, rfl⟩
        exact ⟨rfl, rfl, rfl, hv⟩
      · rintro ⟨rfl, rfl, rfl, hv⟩
        exact ⟨e.spot, hv, rfl⟩

/-- What the findings of some files are. -/
theorem mem_findings :
    e ∈ d.findings parse files ↔ files[e.index]? = some e.path ∧
      d.treeAt? parse e.path = some e.tree ∧ e.spot ∈ e.tree.openings := by
  unfold findings
  rw [List.mem_flatMap]
  constructor
  · rintro ⟨⟨p, index⟩, hmem, he⟩
    obtain ⟨rfl, rfl, htree, hspot⟩ := mem_findingsAt.1 he
    exact ⟨List.mem_zipIdx_iff_getElem?.1 hmem, htree, hspot⟩
  · rintro ⟨hget, htree, hspot⟩
    exact ⟨(e.path, e.index), List.mem_zipIdx_iff_getElem?.2 hget,
      mem_findingsAt.2 ⟨rfl, rfl, htree, hspot⟩⟩

theorem path_mem_of_mem_findings (he : e ∈ d.findings parse files) : e.path ∈ files :=
  List.mem_of_getElem? (mem_findings.1 he).1

/-- No finding is there twice, even if a path is. -/
theorem findings_nodup (d : Disk) (parse : Parser) (files : List Path) :
    (d.findings parse files).Nodup := by
  refine List.nodup_flatMap.2 ⟨?_, ?_⟩
  · rintro ⟨p, index⟩ -
    show (d.findingsAt parse p index).Nodup
    unfold findingsAt
    cases d.treeAt? parse p with
    | none => exact List.nodup_nil
    | some n => exact n.openings_nodup.map fun v w h => (Finding.mk.inj h).2.2.2
  · -- two of the files have different places, so they have no finding in common
    have hplaces : (files.zipIdx.map Prod.snd).Nodup := by
      rw [List.zipIdx_map_snd]
      exact List.nodup_range'
    refine (List.pairwise_map.1 hplaces).imp fun {x y} hne => ?_
    intro e hx hy
    exact hne ((mem_findingsAt.1 hx).1.symm.trans (mem_findingsAt.1 hy).1)

theorem map_row_findingsAt (d : Disk) (parse : Parser) (f : Category → Int) (p : Path)
    (index : Nat) :
    (d.findingsAt parse p index).map (Finding.row f) = d.rowsAt parse f p := by
  unfold findingsAt treeAt? rowsAt
  cases d.readText p with
  | error e => rfl
  | ok text =>
      cases htree : Source.treeOf? parse text with
      | none => simp only [htree, Option.elim_none, List.map_nil]
      | some n =>
          simp only [htree, Option.elim_some, List.map_map]
          rfl

/-- **The rows of files are those of their findings.** -/
theorem map_row_findings (d : Disk) (parse : Parser) (f : Category → Int) (files : List Path) :
    (d.findings parse files).map (Finding.row f) = files.flatMap (d.rowsAt parse f) := by
  calc (d.findings parse files).map (Finding.row f)
      = files.zipIdx.flatMap fun x => d.rowsAt parse f x.1 := by
        rw [findings, List.map_flatMap]
        exact List.flatMap_congr fun x _ => map_row_findingsAt d parse f x.1 x.2
    _ = (files.zipIdx.map Prod.fst).flatMap (d.rowsAt parse f) := (List.flatMap_map ..).symm
    _ = files.flatMap (d.rowsAt parse f) := by rw [List.zipIdx_map_fst]

/-! ## Functions among the findings -/

/-- Can the file at `p` be read, and does no identifier in it read as the marker of a program? -/
structure Plain (d : Disk) (parse : Parser) (p : Path) : Prop where
  readable : ∃ text, d.readText p = .ok text
  unmarked : ∀ n, d.treeAt? parse p = some n → n.Unmarked

/-- With a parser that keeps texts whole, a file that can be read can be reported on. -/
theorem reportable_of_readable (legible : parse.Legible) {p : Path}
    (hread : ∃ text, d.readText p = .ok text) : d.Reportable parse p := by
  obtain ⟨text, htext⟩ := hread
  refine ⟨text, htext, fun n hn => ?_⟩
  unfold Source.treeOf? at hn
  split at hn
  · cases hn
  · obtain rfl := Option.some.inj hn
    exact (legible text).nameable

theorem legible_of_treeAt? (legible : parse.Legible) {p : Path} {n : Node}
    (h : d.treeAt? parse p = some n) : n.Legible := by
  unfold treeAt? Source.treeOf? at h
  split at h
  · split at h
    · cases h
    · obtain rfl := Option.some.inj h
      exact legible _
  · cases h

end Disk

namespace Finding

variable {d : Disk} {parse : Parser} {files : List Path} {e : Finding}

theorem isFunction_iff (hspot : e.spot ∈ e.tree.openings) :
    e.IsFunction ↔ e.spot.node.kind ≠ Kind.program := by
  have hscope : e.spot.node.kind.isScope = true := (mem_scopesAmong.1 hspot).2
  constructor
  · intro hfunction hprogram
    rw [IsFunction, hprogram] at hfunction
    revert hfunction
    decide
  · intro hprogram
    exact ((Kind.isScope_iff _).1 hscope).resolve_right hprogram

/-- **What the rows count as functions** are the functions. -/
theorem signature_row_ne_marker_iff (legible : parse.Legible)
    (plain : ∀ p ∈ files, d.Plain parse p) (he : e ∈ d.findings parse files) (f : Category → Int) :
    (e.row f).signature ≠ Scope.programSignature ↔ e.IsFunction := by
  obtain ⟨-, htree, hspot⟩ := Disk.mem_findings.1 he
  have hlegible : e.tree.Legible := Disk.legible_of_treeAt? legible htree
  have hunmarked : e.tree.Unmarked :=
    (plain e.path (Disk.path_mem_of_mem_findings he)).unmarked e.tree htree
  obtain ⟨name, hname⟩ := hlegible.nameable e.spot hspot
  have hrow : (e.row f).signature = name := by
    show (e.spot.signature []).toOption.getD "" = name
    rw [hname]
    rfl
  have hmarker := Node.signature_eq_marker_iff hlegible hunmarked hspot
  rw [hname, Except.ok.injEq] at hmarker
  rw [isFunction_iff hspot, hrow, ne_eq, hmarker]

end Finding

end ScopeScore
