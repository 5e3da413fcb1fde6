import ScopeScore.Proofs.Metrics.Figures
import ScopeScore.Proofs.Report.Order

set_option autoImplicit false

/-! # All reports agree

A program is reported on in four ways: by metrics, by the records of a source, by what these tell,
and by the rows of a file. Each way runs its own analysis and finds the outermost scope in its own
manner, as the first record, as the first record of depth 0, or as the first row.

* `Figures` are the score, the number of scopes and the greatest score of an inner scope.
  `Node.figures` reads them off the tree.
* `Node.FirstFault.mapM_eq_error`: if names cannot be read, the first of them decides the fault.

**`Source.reports_agree`**: the four ways give the same figures and the same scopes, and where one of
the names cannot be read, the same fault.
-/

namespace ScopeScore

open Spot

/-- The figures of a program. -/
structure Figures where
  score : Int
  scopes : Nat
  /-- The greatest score of a scope inside another; 0 if there is none. -/
  greatest : Int

namespace Figures

/-- These are the values of the metrics, one by one and all at once, whatever went before. -/
structure Measure (g : Figures) (tree : Option Place) : Prop where
  score : (Registry.standard.measure "Hell Score" tree).Yields (.int g.score)
  scopes : (Registry.standard.measure "Hell Scopes" tree).Yields (.int g.scopes)
  greatest : (Registry.standard.measure "Hell Max Scope Score" tree).Yields (.int g.greatest)
  all : (Registry.standard.computeAll tree).Yields
    [("Hell Score", .int g.score), ("Hell Scopes", .int g.scopes),
      ("Hell Max Scope Score", .int g.greatest)]

/-- These are the figures of some rows: the score of the first, their number, and the greatest score
of one with a positive depth. -/
structure SumUp (g : Figures) (rows : List Row) : Prop where
  score : (rows.head?.map Row.score).getD .zero = .int g.score
  scopes : rows.length = g.scopes
  greatest : ∃ scores : List Int,
    (rows.filter fun row => 0 < row.depth).map Row.score = scores.map Amount.int ∧
    scores.max?.getD 0 = g.greatest

end Figures

/-! ## Figures of a tree -/

namespace Node

/-- The figures of a tree, if the categories cost `f`. -/
def figures (f : Category → Int) (n : Node) : Figures where
  score := n.firstScore f
  scopes := n.openings.length
  greatest := (n.innerScores f).max?.getD 0

theorem measure_figures (place : Place) :
    (place.node.figures Category.defaultPrice).Measure (some place) := by
  have hscore := Metric.yields_totalScore place
  have hscopes := Metric.yields_scopeCount place
  have hgreatest := Metric.yields_greatestScore place
  refine ⟨?_, ?_, ?_, Work.yields_mapM ?_⟩
  · exact (Work.yields_ofExcept rfl).bind hscore
  · exact (Work.yields_ofExcept rfl).bind hscopes
  · exact (Work.yields_ofExcept rfl).bind hgreatest
  · exact .cons (hscore.bind (Work.yields_pure _)) (.cons (hscopes.bind (Work.yields_pure _))
      (.cons (hgreatest.bind (Work.yields_pure _)) .nil))

theorem sumUp_rows (file : String) (f : Category → Int) (n : Node) :
    (n.figures f).SumUp (n.rows file f) := by
  refine ⟨?_, List.length_map .., n.innerScores f, ?_, rfl⟩
  · rw [rows, List.head?_map, Option.map_map]
    show _ = Amount.int (n.firstScore f)
    rw [firstScore]
    cases n.openings.head? <;> rfl
  · have hinner : n.openings.filter ((fun row => decide (0 < row.depth)) ∘ n.rowAt file f) =
        n.openings.filter fun v => 0 < v.depth :=
      List.filter_congr fun v _ => decide_eq_decide.2 Int.natCast_pos
    rw [rows, List.filter_map, hinner, innerScores, List.map_map, List.map_map]
    rfl

/-! ## Names that cannot be read -/

/-- The first name that cannot be read has this fault. -/
def FirstFault (n : Node) (fault : Utf8.Invalid) : Prop :=
  ∃ before v after, n.openings = before ++ v :: after ∧
    (∀ u ∈ before, ∃ name, u.signature [] = .ok name) ∧ v.signature [] = .error fault

theorem exists_firstFault {n : Node} (h : ¬ n.Nameable) : ∃ fault, n.FirstFault fault := by
  have hsome : ∃ v ∈ n.openings, (!(v.signature []).isOk) = true := by
    by_contra hall
    refine h fun v hv => isOk_iff_exists.1 ?_
    by_contra hfault
    exact hall ⟨v, hv, by simpa using hfault⟩
  obtain ⟨v, hfind⟩ := Option.isSome_iff_exists.1 (List.find?_isSome.2 hsome)
  obtain ⟨hfault, before, after, hsplit, hbefore⟩ := List.find?_eq_some_iff_append.1 hfind
  cases hsig : v.signature [] with
  | ok name =>
      rw [hsig] at hfault
      cases hfault
  | error fault =>
      refine ⟨fault, before, v, after, hsplit, fun u hu => isOk_iff_exists.1 ?_, hsig⟩
      simpa using hbefore u hu

/-- What is told of the scopes one after the other fails at the first name that cannot be read. -/
theorem FirstFault.mapM_eq_error {n : Node} {fault : Utf8.Invalid} (h : n.FirstFault fault)
    {γ : Type} {e : Failure} {g : ScopeId → Except Failure γ} {k : Spot → ScopeId}
    (hok : ∀ u ∈ n.openings, (∃ name, u.signature [] = .ok name) → ∃ z, g (k u) = .ok z)
    (hfault : ∀ v ∈ n.openings, v.signature [] = .error fault → g (k v) = .error e) :
    (n.openings.map k).mapM g = .error e := by
  obtain ⟨before, v, after, hsplit, hbefore, hv⟩ := h
  have hlast := hfault v (hsplit ▸ List.mem_append_right _ List.mem_cons_self) hv
  rw [hsplit] at hok ⊢
  clear hsplit hfault
  -- only what is told of the scopes before the first fault matters, so the induction is on these
  induction before with
  | nil =>
      rw [List.nil_append, List.map_cons, List.mapM_cons, hlast]
      rfl
  | cons u before ih =>
      obtain ⟨z, hz⟩ := hok u List.mem_cons_self (hbefore u List.mem_cons_self)
      have hrest := ih (fun x hx => hok x (List.mem_cons_of_mem u hx))
        fun x hx => hbefore x (List.mem_cons_of_mem u hx)
      rw [List.cons_append, List.map_cons, List.mapM_cons, hz, hrest]
      rfl

end Node

/-! ## What reports tell of a scope -/

/-- What a row tells of a scope, without its file and depth. -/
def Row.record (row : Row) : Record where
  score := row.score
  signature := row.signature
  location := row.location

namespace Session.Mirrors

variable {w : Weights} {f : Category → Int} {old : Store} {n : Node} {s : Session} {v : Spot}

theorem record_number (h : Mirrors w [] old n.walked n.openings none s)
    (hf : ∀ c, w.get c = .int (f c)) (file : String) (hv : v ∈ n.openings)
    (hname : ∃ name, v.signature [] = .ok name) :
    s.scopes.record (number old.size n.openings v) = .ok (n.rowAt file f v).record := by
  obtain ⟨name, hname⟩ := hname
  obtain ⟨own, -, hget⟩ := h.made v hv
  have hsig : s.scopes.signature (number old.size n.openings v) = .ok name := by
    rw [h.signature_number hv, hname]
    rfl
  rw [Store.record, hsig, h.score_number hf hv, hget, Row.record, Node.rowAt, hname]
  rfl

/-- A name that cannot be read is a fault in the row as well as in the record. -/
theorem fault_number (h : Mirrors w [] old n.walked n.openings none s)
    (hf : ∀ c, w.get c = .int (f c)) (file : String) (hv : v ∈ n.openings) {fault : Utf8.Invalid}
    (hfault : v.signature [] = .error fault) :
    Frame.rowOf file s.scopes (number old.size n.openings v) = .error (.undecodable fault) ∧
    s.scopes.record (number old.size n.openings v) = .error (.undecodable fault) := by
  have hsig : s.scopes.signature (number old.size n.openings v) = .error (.undecodable fault) := by
    rw [h.signature_number hv, hfault]
    rfl
  refine ⟨?_, ?_⟩
  · rw [Frame.rowOf, hsig]
    rfl
  · rw [Store.record, h.score_number hf hv, hsig]
    rfl

/-- What the records of a run tell, if all names can be read. -/
theorem mapM_record_of_nameable (h : Mirrors w [] old n.walked n.openings none s)
    (hf : ∀ c, w.get c = .int (f c)) (hnames : n.Nameable) (file : String) :
    (n.openings.map (number old.size n.openings)).mapM s.scopes.record =
      .ok ((n.rows file f).map Row.record) := by
  rw [Node.rows, List.map_map]
  exact mapM_map_eq_ok fun v hv => h.record_number hf file hv (hnames v hv)

/-- The first name that cannot be read is the fault of the rows as well as of the records. -/
theorem mapM_of_firstFault (h : Mirrors w [] old n.walked n.openings none s)
    (hf : ∀ c, w.get c = .int (f c)) {fault : Utf8.Invalid} (hfault : n.FirstFault fault)
    (file : String) :
    (n.openings.map (number old.size n.openings)).mapM (Frame.rowOf file s.scopes) =
      .error (.undecodable fault) ∧
    (n.openings.map (number old.size n.openings)).mapM s.scopes.record =
      .error (.undecodable fault) := by
  refine ⟨hfault.mapM_eq_error ?_ ?_, hfault.mapM_eq_error ?_ ?_⟩
  · exact fun u hu hname => ⟨_, h.rowOf_number hf file hu hname⟩
  · exact fun v hv hname => (h.fault_number hf file hv hname).1
  · exact fun u hu hname => ⟨_, h.record_number hf file hu hname⟩
  · exact fun v hv hname => (h.fault_number hf file hv hname).2

/-- The score of a source is that of the scope that is opened first. -/
theorem score_source (h : Mirrors w [] old n.walked n.openings none s)
    (hf : ∀ c, w.get c = .int (f c)) {source : Source}
    (hrecords : source.records = n.openings.map (number old.size n.openings)) :
    source.score s.scopes = .ok (.int (n.firstScore f)) := by
  cases hhead : n.openings.head? with
  | none =>
      have hnil : n.openings = [] := List.head?_eq_none_iff.1 hhead
      rw [Source.score, Source.root?, hrecords, Node.firstScore, hnil]
      rfl
  | some v =>
      have hv : v ∈ n.openings := List.mem_of_mem_head? hhead
      obtain ⟨own, -, hget⟩ := h.made v hv
      have hfirst : source.records.head? = some (number old.size n.openings v) := by
        rw [hrecords, List.head?_map, hhead]
        rfl
      obtain ⟨others, hothers⟩ := List.head?_eq_some_iff.1 hfirst
      have hroot : source.root? s.scopes = some (number old.size n.openings v) := by
        rw [Source.root?, hothers]
        refine List.find?_cons_of_pos ?_
        rw [hget]
        show ((v.depth : Int) == 0) = true
        rw [Node.depth_of_head?_openings hhead]
        rfl
      rw [Source.score, hroot, Node.firstScore, hhead]
      exact h.score_number hf hv

end Session.Mirrors

namespace Source

/-- Analysing a source of some text with the default weights does not fail, and leaves the records
of its tree. -/
theorem analyze_mirrors {parse : Parser} {text : String} (nonempty : text ≠ "") {s : Source}
    (htext : s.text = some text) (htree : ∀ t, s.tree = some t → t = parse text) {a : Analyzer}
    (hweights : a.weights = Weights.default) (h : History) :
    ∃ (old : Store) (last : Session),
      last.Mirrors Weights.default [] old (parse text).root.walked (parse text).root.openings
        none ∧
      (s.analyze parse a h).failure = none ∧
      (s.analyze parse a h).history = last.history ∧
      (s.analyze parse a h).source.records =
        (parse text).root.openings.map (number old.size (parse text).root.openings) := by
  obtain ⟨h', source, -, hresult⟩ := analyze_of_ne_empty nonempty htext htree a h
  have hints : ∀ c, a.weights.get c = .int c.defaultPrice := by
    rw [hweights]
    exact Weights.get_default
  obtain ⟨last, hmirror, hrun⟩ := a.analyze_completes_of_ints (Place.top (parse text).root)
    Recorder.unlimited h' hints (Recorder.hasRoom_unlimited _)
  rw [hweights] at hmirror
  rw [hresult, hrun]
  exact ⟨h'.scopes, last, hmirror, rfl, rfl, rfl⟩

end Source

/-! ## Reports on a file -/

namespace Frame

variable {d : Disk} {parse : Parser} {a : Analyzer} {p : Path} {text : String}

/-- The frame of a file has the rows of its tree, if all names in it can be read. -/
theorem run_ofFiles_of_nameable (hread : d.readText p = .ok text) (nonempty : text ≠ "")
    (hweights : a.weights = Weights.default) (hnames : (parse text).root.Nameable) (h : History) :
    ∃ frame h₁, (ofFiles d parse a [p]).run h = .ok frame h₁ ∧
      frame.rows = (parse text).root.rows p.toString Category.defaultPrice := by
  have htree : Source.treeOf? parse text = some (parse text).root := if_neg nonempty
  have hreportable : ∀ q ∈ [p], d.Reportable parse q := by
    intro q hq
    obtain rfl := List.mem_singleton.1 hq
    refine ⟨text, hread, fun n hn => ?_⟩
    rw [htree] at hn
    obtain rfl := Option.some.inj hn
    exact hnames
  obtain ⟨h₁, hrun⟩ := run_ofFiles a (fun c => hweights ▸ Weights.get_default c) [p] hreportable h
  refine ⟨_, h₁, hrun, ?_⟩
  rw [ofRows_eq isInt_of_mem_rows, List.flatMap_singleton, Disk.rowsAt_eq hread, htree]
  rfl

/-- A file gives no rows if one of its rows fails. -/
theorem run_ofFiles_of_error {source : Source} {result : Source.Result} {h : History} {e : Failure}
    (hsource : Source.ofPath d p = .ok source) (hresult : source.analyze parse a h = result)
    (hfailure : result.failure = none)
    (hrows : result.source.records.mapM (rowOf result.source.name result.history.scopes) =
      .error e) :
    (ofFiles d parse a [p]).run h = .error e result.history := by
  have hread : (Work.ofExcept (Source.ofPath d p)).run h = .ok source h := by
    rw [hsource]
    rfl
  have hfile : (rowsOfFile d parse a p).run h = .error e result.history := by
    unfold rowsOfFile
    rw [EStateM.run_bind, hread]
    simp only [EStateM.run_bind, EStateM.run_get, EStateM.run_set, hresult, hfailure]
    rw [hrows]
    rfl
  rw [ofFiles, rowsOfFiles, EStateM.run_bind, EStateM.run_bind, hfile]

/-- The report on a file fails at the first name that cannot be read. -/
theorem run_ofFiles_of_firstFault (hread : d.readText p = .ok text) (nonempty : text ≠ "")
    (hweights : a.weights = Weights.default) {fault : Utf8.Invalid}
    (hfault : (parse text).root.FirstFault fault) (h : History) :
    ∃ h₁, (ofFiles d parse a [p]).run h = .error (.undecodable fault) h₁ := by
  obtain ⟨old, last, hmirror, hfailure, hhistory, hrecords⟩ := Source.analyze_mirrors nonempty
    (s := { path := some p, text := some text }) rfl (by rintro _ ⟨⟩) hweights h
  refine ⟨_, run_ofFiles_of_error (Source.ofPath_eq_ok hread) rfl hfailure ?_⟩
  rw [hrecords, hhistory]
  exact (hmirror.mapM_of_firstFault Weights.get_default hfault _).1

end Frame

namespace Source

/-- **All reports agree.** Take a text that is not empty, and the tree that the parser makes of it,
whatever its root is. There are figures such that

* the metrics give them, one by one and all at once, whatever went before;
* analysing a source of this text with the default weights does not fail, and its score and the number
  of its records are these;
* the rows of a file with this text have these figures, and they tell of each scope what its record
  tells. If one of the names cannot be read, there are no rows, and rows and records have the same
  fault. -/
theorem reports_agree (parse : Parser) (text : String) (nonempty : text ≠ "") :
    ∃ g : Figures, g.Measure (some (Place.top (parse text).root)) ∧
      ∀ (source : Source) (a : Analyzer) (h : History), source.text = some text →
        (∀ t, source.tree = some t → t = parse text) → a.weights = Weights.default →
        let result := source.analyze parse a h
        let told := result.source.records.mapM result.history.scopes.record
        result.failure = none ∧
        result.source.score result.history.scopes = .ok (.int g.score) ∧
        result.source.records.length = g.scopes ∧
        ∀ (d : Disk) (p : Path) (b : Analyzer) (h' : History), d.readText p = .ok text →
          b.weights = Weights.default →
          ((parse text).root.Nameable → ∃ frame h₁,
            (Frame.ofFiles d parse b [p]).run h' = .ok frame h₁ ∧ g.SumUp frame.rows ∧
            told = .ok (frame.rows.map Row.record)) ∧
          (¬ (parse text).root.Nameable → ∃ fault h₁,
            (Frame.ofFiles d parse b [p]).run h' = .error (.undecodable fault) h₁ ∧
            told = .error (.undecodable fault)) := by
  refine ⟨(parse text).root.figures Category.defaultPrice,
    Node.measure_figures (Place.top (parse text).root), ?_⟩
  intro source a h htext htree hweights result told
  obtain ⟨old, last, hmirror, hfailure, hhistory, hrecords⟩ :=
    analyze_mirrors nonempty htext htree hweights h
  have htold : told = ((parse text).root.openings.map
      (number old.size (parse text).root.openings)).mapM last.scopes.record := by
    show (source.analyze parse a h).source.records.mapM _ = _
    rw [hrecords, hhistory]
  refine ⟨hfailure, ?_, ?_, ?_⟩
  · rw [hhistory]
    exact hmirror.score_source Weights.get_default hrecords
  · rw [hrecords]
    exact List.length_map ..
  · intro d p b h' hread hb
    refine ⟨fun hnames => ?_, fun hnames => ?_⟩
    · obtain ⟨frame, h₁, hrun, hrows⟩ := Frame.run_ofFiles_of_nameable hread nonempty hb hnames h'
      refine ⟨frame, h₁, hrun, ?_, ?_⟩
      · rw [hrows]
        exact Node.sumUp_rows ..
      · rw [htold, hrows]
        exact hmirror.mapM_record_of_nameable Weights.get_default hnames p.toString
    · obtain ⟨fault, hfault⟩ := Node.exists_firstFault hnames
      obtain ⟨h₁, hrun⟩ := Frame.run_ofFiles_of_firstFault hread nonempty hb hfault h'
      refine ⟨fault, h₁, hrun, ?_⟩
      rw [htold]
      exact (hmirror.mapM_of_firstFault Weights.get_default hfault "").2

/-- A tree that is no program, with two functions in it. The first is empty, and in the second there
is a third one, which branches. -/
def brokenTree : Node :=
  let node (id : Nat) (kind : Kind) (named : Bool) (field : Option String)
      (text : Option (List UInt8)) (children : List Node) : Node :=
    .node { id, kind, named, field, row := 0, text } children
  node 0 "ERROR" true none none
    [node 1 "function_declaration" true none none
        [node 2 "identifier" true (some "name") (some [102]) []],
      node 3 "function_declaration" true none none
        [node 4 "identifier" true (some "name") (some [103]) [],
          node 5 "function_expression" true none none
            [node 6 "binary_expression" true none none
              [node 7 "||" false (some "operator") none []]]]]

/-- The reports on a file whose tree is no program agree. -/
theorem reports_brokenTree :
    let parse : Parser := fun _ => { root := brokenTree, patched := true }
    let source : Source := { path := none, text := some "x" }
    let result := source.analyze parse {} {}
    ∃ g : Figures, g.Measure (some (Place.top brokenTree)) ∧
      result.source.score result.history.scopes = .ok (.int g.score) ∧
      ∃ frame h₁, (Frame.ofFiles Frame.sampleDisk parse {} [Path.ofString "a.js"]).run {} =
          .ok frame h₁ ∧
        g.SumUp frame.rows ∧
        result.source.records.mapM result.history.scopes.record =
          .ok (frame.rows.map Row.record) := by
  intro parse source result
  obtain ⟨g, hmeasure, hall⟩ := reports_agree parse "x" (by decide)
  obtain ⟨-, hscore, -, hfiles⟩ := hall source {} {} rfl (by rintro _ ⟨⟩) rfl
  have hnames : brokenTree.Nameable := by decide
  obtain ⟨hrows, -⟩ := hfiles Frame.sampleDisk (Path.ofString "a.js") {} {} (by decide) rfl
  exact ⟨g, hmeasure, hscore, hrows hnames⟩

end Source

end ScopeScore
