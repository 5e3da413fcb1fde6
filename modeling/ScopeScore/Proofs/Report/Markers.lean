import ScopeScore.Proofs.Analyzer.Provenance
import ScopeScore.Proofs.Report.Columns
import ScopeScore.Proofs.Report.Findings
import ScopeScore.Proofs.Scope.Clues

set_option autoImplicit false

/-! # The marker marks programs

A summary leaves programs out by their name: what is called `*` is taken for one. Of what functions
are called by, only an identifier can read `*`. A path of members cannot, whatever its segments are:
it has two of them or more, and a point in between.

* **`Scope.IsOf.eq_marker_iff`**: so in a tree without such an identifier the marker marks programs.
* `Frame.forall₂_of_run_ofFiles`: each row of a report belongs to a finding and has its name. This is
  so of every report that comes to its end, whatever the weights are.

**`marker_identifies_programs`** puts these together, for scopes, for the records of runs and for the
rows of reports.
-/

namespace ScopeScore

open Spot

/-! ## Names -/

/-- A function that is called by a path of members is never called by the marker. -/
theorem Scope.ne_marker_of_members {s : Scope} {m : Node} {name : String}
    (hclue : s.clue = .members m) (hname : s.signature = .ok name) : name ≠ programSignature := by
  rw [signature_eq_read, hclue] at hname
  have hpath : ".".intercalate <$> m.memberPath = .ok name := hname
  cases hread : m.memberPath with
  | error e =>
      rw [hread] at hpath
      cases hpath
  | ok path =>
      rw [hread] at hpath
      obtain rfl : ".".intercalate path = name := Except.ok.inj hpath
      exact Node.intercalate_ne_marker (Node.two_le_length_of_memberPath hread)

/-- **The marker marks programs**, in a tree without an identifier that reads so. -/
theorem Scope.IsOf.eq_marker_iff {tree : Node} (hunmarked : tree.Unmarked) {s : Scope}
    (h : s.IsOf tree) {name : String} (hname : s.signature = .ok name) :
    name = programSignature ↔ s.node.kind = Kind.program := by
  have hread : s.clue.read = .ok name := by rw [← signature_eq_read, hname]
  constructor
  · rintro rfl
    by_contra hfunction
    have hnames := names_clue hfunction
    cases hclue : s.clue with
    | program =>
        rw [hclue] at hnames
        exact hnames
    | identifier c =>
        rw [hclue] at hnames hread
        obtain ⟨hid, hplace⟩ := hnames
        have hmem : c ∈ tree.nodes := by
          rcases hplace with hc | ⟨p, hp, hc⟩
          · exact Node.mem_nodes_trans hc tree h.1
          · exact Node.mem_nodes_trans hc tree (h.2 p hp)
        exact hunmarked c hmem hid hread
    | members m => exact ne_marker_of_members hclue hname rfl
    | nothing =>
        rw [hclue] at hread
        exact absurd (Except.ok.inj hread) (by decide)
  · intro hprogram
    rw [clue_of_program hprogram] at hread
    exact (Except.ok.inj hread).symm

/-! ## Rows and findings -/

theorem Node.Read.eq_ok_of_orFail {α : Type} {x : Node.Read α} {a : α} (h : x.orFail = .ok a) :
    x = .ok a := by
  cases x with
  | error e => cases h
  | ok b =>
      obtain rfl : b = a := Except.ok.inj h
      rfl

/-- A run that does not fail has come to its end, and its charges have sums. -/
theorem Analyzer.completes_of_not_failed (a : Analyzer) (place : Place) (r : Recorder) (h : History)
    (hroom : r.HasRoom place.node.openings.length)
    (hok : (a.analyze (some place) r h).failure = none) :
    ∃ s : Session,
      Session.Mirrors a.weights place.above h.scopes place.node.walked place.node.openings none s ∧
      a.analyze (some place) r h =
        { analyzer := { a with stack := [], collector := none }
          recorder := r.holding
            (place.node.openings.map (number h.scopes.size place.node.openings))
          history := s.history
          failure := none } := by
  have hsum : ∀ v ∈ place.node.openings,
      ∃ own, Amount.total (charges a.weights (fallingInto v place.node.walked)) = .ok own := by
    intro v hv
    rw [analyze_some] at hok
    cases hrun : (Step.walkFrom a.weights place).run (Session.starting r h) with
    | error e s =>
        rw [hrun] at hok
        cases hok
    | ok u s =>
        rw [Step.walkFrom_eq_makeAll] at hrun
        have hmirror := Step.mirrors_of_run_makeAll rfl (List.append_nil _).symm
          (Node.leads_calls place.node) hrun
        rw [Node.entered_calls] at hmirror
        obtain ⟨own, hown, -⟩ := hmirror.made v hv
        exact ⟨own, hown⟩
  exact a.analyze_completes place r h hroom hsum

namespace Frame

variable {d : Disk} {parse : Parser} {a b : Analyzer} {p : Path} {rows : List Row} {h h₁ : History}

theorem signature_of_rowOf {file : String} {scopes : Store} {id : ScopeId} {row : Row}
    (h : rowOf file scopes id = .ok row) : scopes.signature id = .ok row.signature := by
  unfold rowOf at h
  cases hname : scopes.signature id with
  | error e =>
      rw [hname] at h
      cases h
  | ok name =>
      cases hscore : scopes.score id with
      | error e =>
          rw [hname, hscore] at h
          cases h
      | ok score =>
          rw [hname, hscore] at h
          obtain rfl := Except.ok.inj h
          rfl

/-- What it takes that a file gives rows. -/
theorem exists_of_run_rowsOfFile (hrun : (rowsOfFile d parse a p).run h = .ok (rows, b) h₁) :
    ∃ source, Source.ofPath d p = .ok source ∧ (source.analyze parse a h).failure = none ∧
      (source.analyze parse a h).source.records.mapM
        (rowOf (source.analyze parse a h).source.name
          (source.analyze parse a h).history.scopes) = .ok rows := by
  unfold rowsOfFile at hrun
  rw [EStateM.run_bind] at hrun
  cases hsource : Source.ofPath d p with
  | error e =>
      rw [hsource] at hrun
      cases hrun
  | ok source =>
      have hread : (Work.ofExcept (.ok source : Except Failure Source)).run h = .ok source h := rfl
      rw [hsource, hread] at hrun
      simp only [EStateM.run_bind, EStateM.run_get, EStateM.run_set] at hrun
      set result := source.analyze parse a h with hresult
      cases hfailure : result.failure with
      | some e =>
          simp only [hfailure] at hrun
          cases hrun
      | none =>
          simp only [hfailure] at hrun
          cases hrows : result.source.records.mapM
              (rowOf result.source.name result.history.scopes) with
          | error e =>
              rw [hrows] at hrun
              cases hrun
          | ok made =>
              rw [hrows] at hrun
              cases hscore : result.source.score result.history.scopes with
              | error e =>
                  rw [hscore] at hrun
                  cases hrun
              | ok score =>
                  rw [hscore] at hrun
                  obtain ⟨hpair, -⟩ := EStateM.Result.ok.inj hrun
                  obtain ⟨rfl, -⟩ := Prod.mk.inj hpair
                  exact ⟨source, rfl, hfailure, hrows⟩

/-- The rows of a file are those of its findings, one by one and under the names of these. -/
theorem forall₂_of_run_rowsOfFile (hrun : (rowsOfFile d parse a p).run h = .ok (rows, b) h₁)
    (index : Nat) :
    List.Forall₂ (fun e row => e.spot.signature [] = .ok row.signature)
      (d.findingsAt parse p index) rows := by
  obtain ⟨source, hsource, hfailure, hrows⟩ := exists_of_run_rowsOfFile hrun
  cases htext : d.readText p with
  | error e =>
      have hnone : Source.ofPath d p = .error e := by
        show (do return { path := some p, text := some (← d.readText p) } : Except Failure Source) = _
        rw [htext]
        rfl
      rw [hnone] at hsource
      cases hsource
  | ok text =>
      rw [Source.ofPath_eq_ok htext] at hsource
      obtain rfl := Except.ok.inj hsource
      unfold Disk.findingsAt Disk.treeAt?
      rw [htext]
      by_cases hempty : text = ""
      · subst hempty
        obtain rfl : [] = rows := Except.ok.inj hrows
        exact .nil
      · have htree : Source.treeOf? parse text = some (parse text).root := if_neg hempty
        simp only [htree, Option.elim_some]
        obtain ⟨h', source, -, hresult⟩ := Source.analyze_of_ne_empty hempty
          (s := { path := some p, text := some text }) rfl (by rintro _ ⟨⟩) a h
        rw [hresult] at hfailure hrows
        obtain ⟨s, hmirror, hdone⟩ := a.completes_of_not_failed (Place.top (parse text).root)
          Recorder.unlimited h' (Recorder.hasRoom_unlimited _) hfailure
        rw [hdone] at hrows
        have hall := List.forall₂_map_left_iff.1 (forall₂_of_mapM_eq_ok hrows)
        rw [List.forall₂_map_left_iff]
        apply ((List.forall₂_and_left _ _).2 ⟨fun v hv => hv, hall⟩).imp
        rintro v row ⟨hv, hrow⟩
        have hname := signature_of_rowOf hrow
        rw [hmirror.signature_number hv] at hname
        exact Node.Read.eq_ok_of_orFail hname

/-- So it is for several files. -/
theorem forall₂_of_run_rowsOfFiles {files : List Path} {k : Nat}
    (hrun : (rowsOfFiles d parse a files).run h = .ok rows h₁) :
    List.Forall₂ (fun e row => e.spot.signature [] = .ok row.signature)
      ((files.zipIdx k).flatMap fun (p, index) => d.findingsAt parse p index) rows := by
  induction files generalizing a h h₁ rows k with
  | nil =>
      obtain ⟨rfl, -⟩ := EStateM.Result.ok.inj hrun
      exact .nil
  | cons p files ih =>
      rw [rowsOfFiles, EStateM.run_bind] at hrun
      cases hfirst : (rowsOfFile d parse a p).run h with
      | error e h' =>
          rw [hfirst] at hrun
          cases hrun
      | ok result h' =>
          obtain ⟨first, b⟩ := result
          rw [hfirst] at hrun
          have hrest : EStateM.run (do return first ++ (← rowsOfFiles d parse b files)) h' =
              .ok rows h₁ := hrun
          rw [EStateM.run_bind] at hrest
          cases hothers : (rowsOfFiles d parse b files).run h' with
          | error e h'' =>
              rw [hothers] at hrest
              cases hrest
          | ok others h'' =>
              rw [hothers] at hrest
              obtain ⟨rfl, -⟩ := EStateM.Result.ok.inj hrest
              rw [List.zipIdx_cons, List.flatMap_cons]
              exact List.rel_append (forall₂_of_run_rowsOfFile hfirst k) (ih hothers)

/-- **The rows of a frame are those of the findings**, one by one and under the names of these. -/
theorem forall₂_of_run_ofFiles {files : List Path} {frame : Frame}
    (hrun : (ofFiles d parse a files).run h = .ok frame h₁) :
    List.Forall₂ (fun e row => e.spot.signature [] = .ok row.signature)
      (d.findings parse files) frame.rows := by
  rw [ofFiles, EStateM.run_bind] at hrun
  cases hrows : (rowsOfFiles d parse a files).run h with
  | error e h' =>
      rw [hrows] at hrun
      cases hrun
  | ok rows h' =>
      rw [hrows] at hrun
      obtain ⟨rfl, -⟩ := EStateM.Result.ok.inj hrun
      -- the sort of the column changes the scores only
      exact List.forall₂_map_right_iff.2 (forall₂_of_run_rowsOfFiles hrows)

/-- What a summary holds, in some order. -/
theorem exists_of_summarize {frame summary : Frame} {t : Amount}
    (h : frame.summarize t = .ok summary) :
    ∃ fitted, frame.sort.fitThreshold t = .ok fitted ∧
      summary.rows.Perm (frame.rows.filter (Row.isHit frame.sort fitted)) := by
  unfold summarize at h
  cases hfit : frame.sort.fitThreshold t with
  | error e =>
      rw [hfit] at h
      cases h
  | ok fitted =>
      rw [hfit] at h
      refine ⟨fitted, rfl, ?_⟩
      by_cases hranks : frame.sort.ranks
          ((frame.rows.filter (Row.isHit frame.sort fitted)).map Row.score) = true
      · have hsummary : (.ok { frame with rows :=
            (frame.rows.filter (Row.isHit frame.sort fitted)).mergeSort fun a b =>
              (Row.cmp a b).isLE } : Except Failure Frame) = .ok summary := by
          rw [← h]
          simp [hranks, bind, Except.bind, pure, Except.pure]
        obtain rfl := Except.ok.inj hsummary
        exact List.mergeSort_perm ..
      · have hthrown : (.error .unranked : Except Failure Frame) = .ok summary := by
          rw [← h]
          simp [hranks, bind, Except.bind, throw, throwThe, MonadExceptOf.throw]
        cases hthrown

/-- In a report on trees without an identifier that reads as the marker, the marker stands in the
rows of programs. -/
theorem forall₂_marker {files : List Path} {frame : Frame}
    (hunmarked : ∀ p ∈ files, ∀ n, d.treeAt? parse p = some n → n.Unmarked)
    (hrun : (ofFiles d parse a files).run h = .ok frame h₁) :
    List.Forall₂ (fun e row => e.spot.signature [] = .ok row.signature ∧
        (row.signature = Scope.programSignature ↔ e.spot.node.kind = Kind.program))
      (d.findings parse files) frame.rows := by
  apply ((List.forall₂_and_left _ _).2 ⟨fun e he => he, forall₂_of_run_ofFiles hrun⟩).imp
  rintro e row ⟨he, hname⟩
  obtain ⟨-, htree, hspot⟩ := Disk.mem_findings.1 he
  have hwalked : e.spot ∈ e.tree.walked := Node.mem_walked_of_mem_openings hspot
  have hof : (e.spot.scope [] 0 [] Amount.zero).IsOf e.tree := by
    constructor
    · exact Node.node_mem_nodes_of_mem_walked hwalked
    · intro p hp
      exact (Node.mem_nodes_of_namingNode? hwalked hp).resolve_right List.not_mem_nil
  refine ⟨hname, hof.eq_marker_iff ?_ hname⟩
  exact hunmarked e.path (Disk.path_mem_of_mem_findings he) e.tree htree

/-- If the marker stands in the rows of programs, the hits are the rows of functions. -/
theorem filter_isHit {es : List Finding} (h : List.Forall₂ (fun e row =>
      row.signature = Scope.programSignature ↔ e.spot.node.kind = Kind.program) es rows)
    (sort : ScoreSort) (t : Amount) :
    rows.filter (Row.isHit sort t) = ((es.zip rows).filter fun x =>
      sort.reaches t x.2.score && x.1.spot.node.kind != Kind.program).map Prod.snd := by
  induction h with
  | nil => rfl
  | @cons e row es rows hrow _ ih =>
      have hmarker : (row.signature != Scope.programSignature) =
          (e.spot.node.kind != Kind.program) := by
        rw [Bool.eq_iff_iff, bne_iff_ne, bne_iff_ne]
        exact not_congr hrow
      rw [List.zip_cons_cons, List.filter_cons, List.filter_cons, Row.isHit, hmarker]
      split
      · rw [List.map_cons, ih]
      · exact ih

end Frame

/-- **The marker identifies programs, and only programs.**

* In a tree in which no identifier reads as the marker, a scope whose node and naming node are nodes
  of the tree, and whose name can be read, is called by the marker exactly if it is a program.
* So are the records of every run from a place in the tree, with any weights, any recorder and any
  scopes of earlier runs, and also if the run fails.
* In a report on such trees each row belongs to a finding and has the marker exactly if that is a
  program; a summary consists of the rows that reach the threshold and do not belong to programs.
* Whatever the tree: a function without a name of its own that is assigned to a path of members is
  never called by the marker, so its row is in a summary exactly if it reaches the threshold. -/
theorem marker_identifies_programs :
    (∀ tree : Node, tree.Unmarked →
      (∀ s : Scope, s.IsOf tree → ∀ name, s.signature = .ok name →
        (name = Scope.programSignature ↔ s.node.kind = Kind.program)) ∧
      ∀ (a : Analyzer) (place : Place) (r : Recorder) (h : History), place.IsIn tree →
        let run := a.analyze (some place) r h
        ∃ made, run.recorder.records = r.records ++ made ∧
          ∀ id ∈ made, ∃ scope, run.history.scopes.get? id = some scope ∧
            ∀ name, run.history.scopes.signature id = .ok name →
              (name = Scope.programSignature ↔ scope.node.kind = Kind.program)) ∧
    (∀ (d : Disk) (parse : Parser) (a : Analyzer) (files : List Path) (h h₁ : History)
        (frame : Frame),
      (∀ p ∈ files, ∀ n, d.treeAt? parse p = some n → n.Unmarked) →
      (Frame.ofFiles d parse a files).run h = .ok frame h₁ →
      List.Forall₂ (fun e row => e.spot.signature [] = .ok row.signature ∧
          (row.signature = Scope.programSignature ↔ e.spot.node.kind = Kind.program))
        (d.findings parse files) frame.rows ∧
      ∀ t summary, frame.summarize t = .ok summary →
        ∃ fitted, frame.sort.fitThreshold t = .ok fitted ∧
          summary.rows.Perm (((d.findings parse files).zip frame.rows).filter (fun x =>
            frame.sort.reaches fitted x.2.score && x.1.spot.node.kind != Kind.program)
              |>.map Prod.snd)) ∧
    ∀ (s : Scope) (p m : Node), s.node.kind ≠ Kind.program →
      (∀ c ∈ s.node.child? "name", ¬ c.kind.isIdentifier = true) → s.parent = some p →
      p.kind = Kind.assignmentExpression → p.child? "left" = some m → m.kind.isMember = true →
      ∀ name, s.signature = .ok name → name ≠ Scope.programSignature ∧
        ∀ (sort : ScoreSort) (t : Amount) (row : Row), row.signature = name →
          row.isHit sort t = sort.reaches t row.score := by
  refine ⟨?_, ?_, ?_⟩
  · intro tree hunmarked
    refine ⟨fun s hs name hname => hs.eq_marker_iff hunmarked hname, ?_⟩
    intro a place r h hplace run
    obtain ⟨made, hmade, hall⟩ := a.exists_made hplace r h
    refine ⟨made, hmade, fun id hid => ?_⟩
    obtain ⟨scope, hget, hscope⟩ := hall id hid
    refine ⟨scope, hget, fun name hname => ?_⟩
    rw [Store.signature_of_get? hget] at hname
    exact hscope.eq_marker_iff hunmarked (Node.Read.eq_ok_of_orFail hname)
  · intro d parse a files h h₁ frame hunmarked hrun
    have hrows := Frame.forall₂_marker hunmarked hrun
    refine ⟨hrows, fun t summary hsummary => ?_⟩
    obtain ⟨fitted, hfit, hperm⟩ := Frame.exists_of_summarize hsummary
    refine ⟨fitted, hfit, ?_⟩
    rw [Frame.filter_isHit (hrows.imp fun e row hrow => hrow.2)] at hperm
    exact hperm
  · intro s p m hfunction hown hparent hassignment htarget hmember name hname
    have hclue := Scope.clue_of_members hfunction hown hparent hassignment htarget hmember
    have hne := Scope.ne_marker_of_members hclue hname
    refine ⟨hne, fun sort t row hrow => ?_⟩
    rw [Row.isHit, hrow, bne_iff_ne.2 hne, Bool.and_true]

/-- The program `obj['*'] = function () {}`. -/
def starredTree : Node :=
  let links : List Chain.Link := [⟨.bracket, .string ["*"]⟩]
  let base : Chain.Base := .identifier "identifier" "obj" rfl
  Chain.held none Kind.program none [Chain.held none "expression_statement" none
    [Chain.held none Kind.assignmentExpression none
      ((Chain.node? "left" base links).toList ++
        [Chain.held (some "right") "function_expression" none []])]]

/-- In a report on it the function is called `obj.*`, and the summary has its row and no other. -/
theorem marker_starredTree :
    let parse : Parser := fun _ => { root := starredTree, patched := false }
    starredTree.Unmarked ∧ ∃ frame h₁ summary,
      (Frame.ofFiles Frame.sampleDisk parse {} [Path.ofString "a.js"]).run {} = .ok frame h₁ ∧
      frame.summarize (.int 0) = .ok summary ∧ summary.rows.map Row.signature = ["obj.*"] := by
  intro parse
  have hunmarked : starredTree.Unmarked := by decide +kernel
  have hlegible : starredTree.Legible := by decide +kernel
  have hreportable : ∀ p ∈ [Path.ofString "a.js"], Frame.sampleDisk.Reportable parse p := by
    intro p hp
    obtain rfl := List.mem_singleton.1 hp
    exact Disk.reportable_of_readable (fun _ => hlegible) ⟨"x", by decide⟩
  have htrees : ∀ p ∈ [Path.ofString "a.js"], ∀ n, Frame.sampleDisk.treeAt? parse p = some n →
      n.Unmarked := by
    intro p hp n hn
    obtain rfl := List.mem_singleton.1 hp
    obtain rfl : starredTree = n := Option.some.inj hn
    exact hunmarked
  obtain ⟨h₁, hrun⟩ := Frame.run_ofFiles {} Weights.get_default _ hreportable {}
  set frame := Frame.ofRows ([Path.ofString "a.js"].flatMap
    (Frame.sampleDisk.rowsAt parse Category.defaultPrice)) with hframe
  have hints : frame.OfInts := Frame.ofInts_ofRows Frame.isInt_of_mem_rows
  obtain ⟨summary, hsummary⟩ : ∃ summary, frame.summarize (.int 0) = .ok summary :=
    ⟨_, Frame.summarize_of_ofInts hints (.int 0)⟩
  obtain ⟨-, hreports, -⟩ := marker_identifies_programs
  obtain ⟨-, hsummaries⟩ := hreports _ _ _ _ _ _ _ htrees hrun
  obtain ⟨fitted, hfit, hperm⟩ := hsummaries _ _ hsummary
  have hsort : frame.sort = .words := by decide +kernel
  rw [hsort] at hfit
  obtain rfl : Amount.int 0 = fitted := Except.ok.inj hfit
  have hnames := hperm.map Row.signature
  refine ⟨hunmarked, frame, h₁, summary, hrun, hsummary, List.perm_singleton.1 (hnames.trans ?_)⟩
  apply List.Perm.of_eq
  decide +kernel

end ScopeScore
