import ScopeScore.Proofs.Analyzer.Conservation
import ScopeScore.Proofs.Traversal
import ScopeScore.Report.Frame

set_option autoImplicit false

/-! # The rows of a file

One analyzer scores all files of a report, into one store. The rows of a file show nothing of this:
they can be read off the tree of the file (`Node.rows`), whatever the analyzer did before and
whatever the store holds.

* **`Frame.run_rowsOfFile`**: so it is for a file that can be read, with names that can be read.
* **`Frame.run_rowsOfFiles`**: the rows of several such files are those of one after the other.
-/

namespace ScopeScore

open Spot

/-! ## Rows of a tree -/

/-- Where the scope opened at a spot starts. -/
def Spot.location (v : Spot) : Int := (v.scope [] 0 [] Amount.zero).location

namespace Node

/-- The row of the scope opened at `v`, if the categories cost `f`. A name that cannot be read is
left empty. -/
def rowAt (file : String) (f : Category → Int) (n : Node) (v : Spot) : Row :=
  { file
    signature := (v.signature []).toOption.getD ""
    location := v.location
    depth := v.depth
    score := .int (n.costInside f v) }

/-- The rows of the scopes of a tree, in order. -/
def rows (file : String) (f : Category → Int) (n : Node) : List Row :=
  n.openings.map (n.rowAt file f)

/-- Can the names of all scopes be read? -/
def Nameable (n : Node) : Prop := ∀ v ∈ n.openings, ∃ name, v.signature [] = .ok name

end Node

theorem isOk_iff_exists {α ε : Type} {x : Except ε α} : x.isOk = true ↔ ∃ a, x = .ok a := by
  cases x <;> simp [Except.isOk, Except.toBool]

instance (n : Node) : Decidable n.Nameable :=
  decidable_of_iff (∀ v ∈ n.openings, (v.signature []).isOk = true)
    (forall₂_congr fun _ _ => isOk_iff_exists)

namespace Session.Mirrors

variable {w : Weights} {f : Category → Int} {old : Store} {n : Node} {s : Session}

/-- The row of a scope after a walk, from the tree alone. -/
theorem rowOf_number (h : Mirrors w [] old n.walked n.openings none s)
    (hf : ∀ c, w.get c = .int (f c)) (file : String) {v : Spot} (hv : v ∈ n.openings)
    (hname : ∃ name, v.signature [] = .ok name) :
    Frame.rowOf file s.scopes (number old.size n.openings v) = .ok (n.rowAt file f v) := by
  obtain ⟨name, hname⟩ := hname
  obtain ⟨own, -, hget⟩ := h.made v hv
  have hsig : s.scopes.signature (number old.size n.openings v) = .ok name := by
    rw [h.signature_number hv, hname]
    rfl
  unfold Frame.rowOf
  rw [hsig, h.score_number hf hv, hget, Node.rowAt, hname]
  rfl

end Session.Mirrors

/-! ## Rows of a file -/

namespace Source

/-- The tree of a text; an empty text has none. -/
def treeOf? (parse : Parser) (text : String) : Option Node :=
  if text = "" then none else some (parse text).root

/-- The score of a source is that of one of its records, if it has one at all. -/
theorem exists_score_eq_ok {s : Source} {scopes : Store}
    (h : ∀ id ∈ s.records, ∃ c, scopes.score id = .ok c) : ∃ c, s.score scopes = .ok c := by
  unfold score
  cases hroot : s.root? scopes with
  | none => exact ⟨.zero, rfl⟩
  | some id => exact h id (List.mem_of_find?_eq_some hroot)

theorem ofPath_eq_ok {d : Disk} {p : Path} {text : String} (h : d.readText p = .ok text) :
    ofPath d p = .ok { path := some p, text := some text } := by
  show (do return { path := some p, text := some (← d.readText p) } : Except Failure Source) = _
  rw [h]
  rfl

/-- What analysing a source does, if its text is not empty and it has no tree of another text. -/
theorem analyze_of_ne_empty {parse : Parser} {text : String} (hne : text ≠ "") {s : Source}
    (htext : s.text = some text) (htree : ∀ t, s.tree = some t → t = parse text) (a : Analyzer)
    (h : History) :
    ∃ h' : History, ∃ source : Source, source.path = s.path ∧
      analyze parse a s h =
        let run := a.analyze (some (Place.top (parse text).root)) Recorder.unlimited h'
        { source := source.turnTo run.recorder.records
          list := source.lists.length
          analyzer := run.analyzer
          history := run.history
          failure := run.failure } := by
  have hempty : s.isEmpty = false := by
    simpa [isEmpty, htext] using hne
  unfold analyze ast
  rw [hempty]
  cases hs : s.tree with
  | none =>
      refine ⟨if (parse text).patched then h.tell (.patchedTree s.name) else h,
        { s with tree := some (parse text) }, rfl, ?_⟩
      rw [htext]
      rfl
  | some t =>
      obtain rfl := htree t hs
      exact ⟨h, s, rfl, rfl⟩

end Source

namespace Disk

/-- The rows of the file at `p`, from its tree. -/
def rowsAt (d : Disk) (parse : Parser) (f : Category → Int) (p : Path) : List Row :=
  match d.readText p with
  | .ok text => (Source.treeOf? parse text).elim [] (Node.rows p.toString f)
  | .error _ => []

/-- Can the file at `p` be read, and the names of all scopes in it? -/
def Reportable (d : Disk) (parse : Parser) (p : Path) : Prop :=
  ∃ text, d.readText p = .ok text ∧
    ∀ n, Source.treeOf? parse text = some n → n.Nameable

theorem rowsAt_eq {d : Disk} {p : Path} {text : String} (h : d.readText p = .ok text)
    (parse : Parser) (f : Category → Int) :
    d.rowsAt parse f p = (Source.treeOf? parse text).elim [] (Node.rows p.toString f) := by
  rw [rowsAt, h]

end Disk

namespace Frame

variable {d : Disk} {parse : Parser} {f : Category → Int} {a : Analyzer} {p : Path}

/-- A file gives rows if none of the steps fails. -/
theorem run_rowsOfFile_of_ok {source : Source} {result : Source.Result} {h : History}
    {rows : List Row} {score : Amount} (hsource : Source.ofPath d p = .ok source)
    (hresult : source.analyze parse a h = result) (hfailure : result.failure = none)
    (hrows : result.source.records.mapM (rowOf result.source.name result.history.scopes) =
      .ok rows)
    (hscore : result.source.score result.history.scopes = .ok score) :
    (rowsOfFile d parse a p).run h = .ok (rows, result.analyzer)
      (result.history.tell
        (.scored result.source.name result.source.records.length score)) := by
  have hread : (Work.ofExcept (Source.ofPath d p)).run h = .ok source h := by
    rw [hsource]
    rfl
  unfold rowsOfFile
  rw [EStateM.run_bind, hread]
  simp only [EStateM.run_bind, EStateM.run_get, EStateM.run_set, hresult, hfailure]
  rw [hrows, hscore]
  rfl

/-- **The rows of a file** are those of its tree, whatever was analysed before. -/
theorem run_rowsOfFile (ints : ∀ c, a.weights.get c = .int (f c)) (hp : d.Reportable parse p)
    (h : History) :
    ∃ b h₁, (rowsOfFile d parse a p).run h = .ok (d.rowsAt parse f p, b) h₁ ∧
      b.weights = a.weights := by
  obtain ⟨text, htext, hnames⟩ := hp
  have hsource := Source.ofPath_eq_ok htext
  rw [Disk.rowsAt_eq htext]
  by_cases hempty : text = ""
  · subst hempty
    exact ⟨_, _, run_rowsOfFile_of_ok hsource rfl rfl rfl rfl, rfl⟩
  · have htree : Source.treeOf? parse text = some (parse text).root := if_neg hempty
    obtain ⟨h', source, hpath, hresult⟩ := Source.analyze_of_ne_empty hempty
      (s := { path := some p, text := some text }) rfl (by rintro _ ⟨⟩) a h
    obtain ⟨s, hmirror, hrun⟩ := a.analyze_completes_of_ints (Place.top (parse text).root)
      Recorder.unlimited h' ints (Recorder.hasRoom_unlimited _)
    rw [hrun] at hresult
    set ids := (parse text).root.openings.map
      (number h'.scopes.size (parse text).root.openings)
    have hname : (source.turnTo ids).name = p.toString := by
      show (source.path.map Path.toString).getD "<string>" = _
      rw [hpath]
      rfl
    have hrows : ids.mapM (rowOf (source.turnTo ids).name s.scopes) =
        .ok ((parse text).root.rows p.toString f) := by
      rw [hname]
      exact mapM_map_eq_ok fun v hv =>
        hmirror.rowOf_number ints p.toString hv (hnames _ htree v hv)
    obtain ⟨score, hscore⟩ : ∃ score, (source.turnTo ids).score s.scopes = .ok score := by
      refine Source.exists_score_eq_ok fun id hid => ?_
      obtain ⟨v, hv, rfl⟩ := List.mem_map.1 hid
      exact ⟨_, hmirror.score_number ints hv⟩
    rw [htree]
    exact ⟨_, _, run_rowsOfFile_of_ok hsource hresult rfl hrows hscore, rfl⟩

/-- **The rows of some files** are those of one after the other: what a file leaves in the analyzer
and in the store does not show in the next one. -/
theorem run_rowsOfFiles (ints : ∀ c, a.weights.get c = .int (f c)) {files : List Path}
    (hfiles : ∀ p ∈ files, d.Reportable parse p) (h : History) :
    ∃ h₁, (rowsOfFiles d parse a files).run h = .ok (files.flatMap (d.rowsAt parse f)) h₁ := by
  induction files generalizing a h with
  | nil => exact ⟨h, rfl⟩
  | cons p files ih =>
      obtain ⟨b, h₁, hfirst, hweights⟩ := run_rowsOfFile ints (hfiles p List.mem_cons_self) h
      obtain ⟨h₂, hrest⟩ := ih (a := b) (fun c => hweights ▸ ints c)
        (fun q hq => hfiles q (List.mem_cons_of_mem p hq)) h₁
      refine ⟨h₂, ?_⟩
      rw [rowsOfFiles, EStateM.run_bind, hfirst]
      show EStateM.run (do return d.rowsAt parse f p ++ (← rowsOfFiles d parse b files)) h₁ = _
      rw [EStateM.run_bind, hrest]
      rfl

/-- The frame of some files, from their trees. -/
theorem run_ofFiles (a : Analyzer) (ints : ∀ c, a.weights.get c = .int (f c)) (files : List Path)
    (hfiles : ∀ p ∈ files, d.Reportable parse p) (h : History) :
    ∃ h₁, (ofFiles d parse a files).run h =
      .ok (ofRows (files.flatMap (d.rowsAt parse f))) h₁ := by
  obtain ⟨h₁, hrun⟩ := run_rowsOfFiles ints hfiles h
  refine ⟨h₁, ?_⟩
  rw [ofFiles, EStateM.run_bind, hrun]
  rfl

end Frame

end ScopeScore
