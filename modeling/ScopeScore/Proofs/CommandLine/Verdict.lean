import ScopeScore.CommandLine.Run
import ScopeScore.Proofs.Analyzer.Slice
import ScopeScore.Proofs.Decimal.Whole
import ScopeScore.Proofs.Files.Search
import ScopeScore.Proofs.Metrics.Totals
import ScopeScore.Proofs.Report.Findings

set_option autoImplicit false

/-! # The verdict of a run

The exit code is what a build looks at. It comes out at the end of a long way, from a search over
scores to a summary, and the report is made and delivered in between.

* `Program.verdict` is the exit code without the report: it knows the paths and the threshold only.
  **`Program.exit_run`**: it is the exit code of every run whose report can be delivered.
* `Frame.exists_hits_of_ofInts`: a frame of integers has a summary for every threshold, which is
  empty exactly if nothing reaches it.
* **`Program.exit_of_run`**: what the exit code says about the files.

A path that is too long is the exception. Looking it up fails in a way of its own, which a run does
not expect, so that it ends without an exit code (`Program.exit_of_longName`).
-/

namespace ScopeScore

/-! ## Command lines of paths alone -/

namespace Settings

theorem consume_arguments (s : Settings) (words : List String) (group : List Word) :
    s.consume group (words.map Word.argument) =
      .ok (s.takeArguments (group ++ words.map Word.argument)) := by
  induction words generalizing group with
  | nil => simp [consume]
  | cons word words ih =>
      rw [List.map_cons, consume, ih]
      · simp
      · intro switch joined h
        cases h
      · intro text h
        cases h

theorem classifyAll_of_plain {args : List String}
    (plain : ∀ arg ∈ args, arg.startsWith "-" = false) :
    Word.classifyAll args = .ok (args.map Word.argument) := by
  induction args with
  | nil => rfl
  | cons arg args ih =>
      have harg := plain arg List.mem_cons_self
      have hdashes : (arg == Word.dashes) = false := by
        refine beq_false_of_ne fun h => ?_
        have hstart : Word.dashes.startsWith "-" = true := by decide +kernel
        rw [h, hstart] at harg
        cases harg
      have hclassify : Word.classify arg = .ok (.argument arg) := by
        rw [Word.classify, harg]
        rfl
      have hargs := ih fun x hx => plain x (List.mem_cons_of_mem arg hx)
      rw [Word.classifyAll, hdashes, hclassify, hargs]
      rfl

/-- Words that do not begin like a switch are the paths, and nothing is set. -/
theorem ofArguments_of_plain {args : List String} (nonempty : args ≠ [])
    (plain : ∀ arg ∈ args, arg.startsWith "-" = false) :
    ofArguments args = .ok { paths := some (args.map Path.ofString) } := by
  have htexts : (args.map Word.argument).filterMap Word.argument? = args := by
    rw [List.filterMap_map]
    exact List.filterMap_some
  have hany : ((args.map Word.argument).any fun w => w.argument?.isSome) = true := by
    obtain ⟨arg, rest, rfl⟩ := List.exists_cons_of_ne_nil nonempty
    rfl
  have htake : ({} : Settings).takeArguments (args.map Word.argument) =
      { paths := some (args.map Path.ofString) } := by
    unfold takeArguments
    rw [hany, htexts]
    rfl
  unfold ofArguments
  rw [classifyAll_of_plain plain]
  show (do
    let s ← ({} : Settings).consume [] (args.map Word.argument)
    if s.paths.isNone then throw (Halt.fault .missingPaths)
    unless s.leftover.isEmpty do throw (Halt.fault (.leftover s.leftover))
    return s) = _
  rw [consume_arguments, List.nil_append, htake]
  rfl

end Settings

/-! ## The exit code alone -/

/-- Can a report be delivered to this target, whatever is in it? -/
def Target.Takes (d : Disk) : Target → Prop
  | .screen => True
  | .file path => ∀ octets, ∃ d', d.writeFile path octets = .ok d'
  | .nowhere => False

namespace Program

/-- The exit code for some files. -/
def verdictOn (parse : Parser) (d : Disk) (threshold : Option Amount) (files : List Path) :
    Except Failure Nat :=
  match EStateM.run (Frame.ofFiles d parse {} files) {} with
  | .error e _ => .error e
  | .ok frame _ => do
      let hits ← frame.hits threshold
      return if hits.rows.isEmpty then 0 else 2

/-- The exit code for some paths. -/
def verdict (parse : Parser) (d : Disk) (threshold : Option Amount) (paths : List Path) :
    Except Failure Nat :=
  match d.collect sourceSuffixes paths with
  | .error (.access cause) => .error (.access cause)
  | .error _ => .ok 1
  | .ok files => verdictOn parse d threshold files

variable {p : Program} {parse : Parser} {d : Disk} {s : Settings}

theorem exit_report (target : s.output.Takes d) (files : List Path) :
    (p.report parse d s files).map Outcome.exit = verdictOn parse d s.threshold files := by
  unfold report verdictOn
  cases EStateM.run (Frame.ofFiles d parse {} files) {} with
  | error e h => rfl
  | ok frame h =>
      cases hhits : frame.hits s.threshold with
      | error e => simp only [hhits, bind, Except.bind, Except.map]
      | ok hits =>
          simp only [hhits, bind, Except.bind]
          cases houtput : s.output with
          | screen => rfl
          | nowhere =>
              rw [houtput] at target
              cases target
          | file path =>
              rw [houtput] at target
              obtain ⟨d', hwrite⟩ := target
                (s.format.render (if s.all = true then frame else hits)).toUTF8.toList
              simp only [hwrite]
              rfl

/-- **The exit code does not know the report.** Neither its format nor where it goes, neither what
else is listed nor what is told on the way makes a difference. -/
theorem exit_run {args : List String} (accepted : Settings.ofArguments args = .ok s)
    (target : s.output.Takes d) :
    (p.run parse d args).map Outcome.exit = verdict parse d s.threshold (s.paths.getD []) := by
  unfold run verdict
  rw [accepted]
  cases hcollect : d.collect sourceSuffixes (s.paths.getD []) with
  | error e => cases e <;> simp only [hcollect] <;> rfl
  | ok files =>
      simp only [hcollect]
      exact exit_report target files

end Program

/-! ## What the files decide -/

namespace Frame

variable {frame : Frame} {t : Amount}

/-- The summary is empty exactly if nothing reaches the threshold. -/
theorem exists_hits_of_ofInts (h : frame.OfInts) (t : Amount) :
    ∃ hits, frame.hits (some t) = .ok hits ∧
      (hits.rows.isEmpty = false ↔ ∃ row ∈ frame.rows, row.isHit frame.sort t = true) := by
  refine ⟨_, summarize_of_ofInts h t, ?_⟩
  rw [List.isEmpty_eq_false_iff_exists_mem]
  simp [List.mem_mergeSort, List.mem_filter]

end Frame

namespace Disk

variable {d : Disk} {q : Path}

/-- Do the octets of the file at `q` spell a text? -/
def Decodes (d : Disk) (q : Path) : Prop :=
  ∀ octets, d.readFile q = .ok octets → ∃ text, Utf8.decode octets = .ok text

/-- A file that can be opened can be read exactly if it decodes. -/
theorem exists_readText {octets : List UInt8} (hopen : d.readFile q = .ok octets)
    (hdecodes : d.Decodes q) : ∃ text, d.readText q = .ok text := by
  obtain ⟨text, htext⟩ := hdecodes octets hopen
  refine ⟨String.ofList (Text.unifyNewlines text.toList), ?_⟩
  rw [readText, hopen]
  simp only [bind, Except.bind, htext]
  rfl

end Disk

namespace Finding

/-- What the scopes of a report score, by the default weights. -/
def price (r : Finding) : Int := r.score Category.defaultPrice

/-- Is this one of the functions that reach the threshold? Scores are compared with it in a column
that holds all of them. -/
def Violates (t : Amount) (findings : List Finding) (r : Finding) : Prop :=
  r.spot.node.kind ≠ Kind.program ∧
    (ScoreSort.of (findings.map fun r => .int r.price)).reaches t (.int r.price) = true

instance (t : Amount) (findings : List Finding) (r : Finding) :
    Decidable (r.Violates t findings) := inferInstanceAs (Decidable (_ ∧ _))

/-- A score that binary64 numbers can hold is compared exactly. -/
theorem violates_iff {r : Finding} (hsmall : r.price < 2 ^ 53) (t : Amount)
    (findings : List Finding) :
    r.Violates t findings ↔ r.spot.node.kind ≠ Kind.program ∧ t.le (.int r.price) = true := by
  have hnonneg : 0 ≤ r.price := Node.costInside_nonneg Category.defaultPrice_nonneg r.tree r.spot
  obtain ⟨n, hn⟩ := Int.eq_ofNat_of_zero_le hnonneg
  rw [Violates, hn, ScoreSort.reaches_int _ t (by omega)]

end Finding

namespace Program

variable {p : Program} {parse : Parser} {d : Disk} {files : List Path}

/-- Files that can be read have an exit code: 2 if a row is a hit, and 0 if none is. -/
theorem verdictOn_of_readable (legible : parse.Legible)
    (readable : ∀ q ∈ files, ∃ text, d.readText q = .ok text) (t : Amount) :
    let findings := d.findings parse files
    verdictOn parse d (some t) files = .ok
      (if ∃ r ∈ findings, (r.row Category.defaultPrice).isHit
          (ScoreSort.of (findings.map fun r => .int r.price)) t = true then 2 else 0) := by
  intro findings
  have hreportable : ∀ q ∈ files, d.Reportable parse q := fun q hq =>
    Disk.reportable_of_readable legible (readable q hq)
  obtain ⟨h₁, hrun⟩ := Frame.run_ofFiles {} Weights.get_default files hreportable {}
  have hints : (Frame.ofRows (files.flatMap (d.rowsAt parse Category.defaultPrice))).OfInts :=
    Frame.ofInts_ofRows Frame.isInt_of_mem_rows
  have hframe : Frame.ofRows (files.flatMap (d.rowsAt parse Category.defaultPrice)) =
      { rows := findings.map (Finding.row Category.defaultPrice),
        sort := ScoreSort.of (findings.map fun r => .int r.price) } := by
    rw [Frame.ofRows_eq Frame.isInt_of_mem_rows, ← Disk.map_row_findings, List.map_map]
    rfl
  rw [hframe] at hrun hints
  obtain ⟨hits, hhits, hnonempty⟩ := Frame.exists_hits_of_ofInts hints t
  have hverdict : verdictOn parse d (some t) files =
      .ok (if hits.rows.isEmpty = true then 0 else 2) := by
    unfold verdictOn
    rw [hrun]
    simp only [hhits, bind, Except.bind]
    rfl
  simp only [List.mem_map, exists_exists_and_eq_and] at hnonempty
  rw [hverdict]
  by_cases hempty : hits.rows.isEmpty = true
  · rw [if_pos hempty, if_neg fun hsome => by simp [hnonempty.2 hsome] at hempty]
  · rw [if_neg hempty, if_pos (hnonempty.1 (by simpa using hempty))]

/-- **What the exit code says about the files**: it is 2 if a function reaches the threshold, and 0
if none does. -/
theorem verdictOn_of_plain (legible : parse.Legible) (plain : ∀ q ∈ files, d.Plain parse q)
    (t : Amount) :
    verdictOn parse d (some t) files = .ok
      (if ∃ r ∈ d.findings parse files, r.Violates t (d.findings parse files) then 2 else 0) := by
  rw [verdictOn_of_readable legible (fun q hq => (plain q hq).readable) t]
  refine congrArg Except.ok (if_congr (exists_congr fun r => and_congr_right fun hr => ?_) rfl rfl)
  have hfunction := Finding.signature_row_ne_marker_iff legible plain hr Category.defaultPrice
  rw [Finding.isFunction_iff (Disk.mem_findings.1 hr).2.2] at hfunction
  rw [Row.isHit, Bool.and_eq_true, bne_iff_ne, hfunction, and_comm]
  rfl

/-- **The exit code of a run.** Let the disk be regular, the parser keep texts whole, and the
command line be accepted, with a threshold and a target that takes the report.

* If the search fails because a path is too long, there is no exit code. If it fails otherwise, the
  exit code is 1.
* If it succeeds, all files decode and no identifier in them reads as the marker of a program, then
  the exit code is 2 if a scope that is no program reaches the threshold, and 0 if none does. To
  reach it is to score at least as much; scores from `2 ^ 53` on may be rounded first.
* Another command line with the same paths and the same threshold has the same exit code, whatever
  else it asks for. -/
theorem exit_of_run (p : Program) (parse : Parser) (d : Disk) (args : List String) (s : Settings)
    (t : Amount) (regular : d.isRegular = true) (legible : parse.Legible)
    (accepted : Settings.ofArguments args = .ok s) (threshold : s.threshold = some t)
    (target : s.output.Takes d) :
    let exit := (p.run parse d args).map Outcome.exit
    let collected := d.collect sourceSuffixes (s.paths.getD [])
    (∀ cause, collected = .error (.access cause) →
      (∃ path, cause = .tooLong path) ∧ exit = .error (.access cause)) ∧
    (∀ e, collected = .error e → (∀ cause, e ≠ .access cause) → exit = .ok 1) ∧
    (∀ files, collected = .ok files → (∀ q ∈ files, d.Decodes q) →
      (∀ q ∈ files, ∀ n, d.treeAt? parse q = some n → n.Unmarked) →
      let findings := d.findings parse files
      ((∃ r ∈ findings, r.Violates t findings) → exit = .ok 2) ∧
      (¬ (∃ r ∈ findings, r.Violates t findings) → exit = .ok 0) ∧
      ∀ r ∈ findings, r.price < 2 ^ 53 →
        (r.Violates t findings ↔ r.spot.node.kind ≠ Kind.program ∧ t.le (.int r.price) = true)) ∧
    ∀ (other : Program) (args' : List String) (s' : Settings),
      Settings.ofArguments args' = .ok s' → s'.paths = s.paths → s'.threshold = s.threshold →
      s'.output.Takes d → (other.run parse d args').map Outcome.exit = exit := by
  intro exit collected
  have hexit : exit = verdict parse d (some t) (s.paths.getD []) := by
    rw [← threshold]
    exact exit_run accepted target
  refine ⟨?_, ?_, ?_, ?_⟩
  · intro cause (hcollect : d.collect sourceSuffixes (s.paths.getD []) = _)
    rw [hexit, verdict, hcollect]
    refine ⟨?_, rfl⟩
    rcases Disk.cause_of_collect_eq_error hcollect with ⟨_, h⟩ | h | ⟨path, h⟩
    · cases h
    · cases h
    · exact ⟨path, Failure.access.inj h⟩
  · intro e (hcollect : d.collect sourceSuffixes (s.paths.getD []) = _) hother
    rw [hexit, verdict, hcollect]
    cases e with
    | access cause => exact absurd rfl (hother cause)
    | _ => rfl
  · intro files (hcollect : d.collect sourceSuffixes (s.paths.getD []) = _) hdecodes hunmarked
    have plain : ∀ q ∈ files, d.Plain parse q := by
      intro q hq
      obtain ⟨octets, hopen⟩ := Disk.exists_readFile_of_mem_collect regular hcollect hq
      exact ⟨Disk.exists_readText hopen (hdecodes q hq), hunmarked q hq⟩
    have hon : exit = verdictOn parse d (some t) files := by
      rw [hexit, verdict, hcollect]
    rw [hon, verdictOn_of_plain legible plain t]
    exact ⟨fun hsome => congrArg Except.ok (if_pos hsome),
      fun hnone => congrArg Except.ok (if_neg hnone), fun r _ hsmall => r.violates_iff hsmall t _⟩
  · intro other args' s' accepted' hpaths hthreshold target'
    rw [exit_run accepted' target', hpaths, hthreshold, hexit, threshold]

/-- A program with one function, in which there are five loops. -/
def loopTree : Node :=
  let node (id : Nat) (kind : Kind) (children : List Node) : Node :=
    .node { id, kind, named := true, field := none, row := 0, text := none } children
  node 0 "program" [node 1 "function_declaration"
    ((List.range 5).map fun i => node (i + 2) "while_statement" [])]

/-- The function with five loops scores 50, so it reaches the default threshold. The functions of
the nested tree do not. -/
theorem exit_loopTree :
    let exit (tree : Node) :=
      (command.run (fun _ => { root := tree, patched := false }) Frame.sampleDisk ["a.js"]).map
        Outcome.exit
    exit loopTree = .ok 2 ∧ exit Analyzer.nestedTree = .ok 0 := by
  have haccepted : Settings.ofArguments ["a.js"] = .ok { paths := some [Path.ofString "a.js"] } :=
    Settings.ofArguments_of_plain (by simp) (by decide +kernel)
  have hcollect : Frame.sampleDisk.collect sourceSuffixes [Path.ofString "a.js"] =
      .ok [Path.ofString "a.js"] := by decide +kernel
  have hdecodes : ∀ q ∈ [Path.ofString "a.js"], Frame.sampleDisk.Decodes q := by
    intro q hq octets hopen
    rw [List.mem_singleton.1 hq] at hopen
    obtain rfl : [120] = octets := Except.ok.inj hopen
    exact ⟨"x", by decide⟩
  have hunmarked : ∀ tree : Node, tree.Unmarked → ∀ q ∈ [Path.ofString "a.js"], ∀ n,
      Frame.sampleDisk.treeAt? (fun _ => { root := tree, patched := false }) q = some n →
      n.Unmarked := by
    intro tree htree q hq n hn
    rw [List.mem_singleton.1 hq] at hn
    obtain rfl : tree = n := Option.some.inj hn
    exact htree
  have hfiles : ∀ tree : Node, tree.Legible → tree.Unmarked → _ := fun tree hlegible htree =>
    (exit_of_run command (fun _ => { root := tree, patched := false }) Frame.sampleDisk ["a.js"] _
      (.int 50) (by decide) (fun _ => hlegible) haccepted rfl trivial).2.2.1 _ hcollect hdecodes
      (hunmarked tree htree)
  exact ⟨(hfiles loopTree (by decide) (by decide)).1 (by decide),
    (hfiles Analyzer.nestedTree (by decide) (by decide)).2.1 (by decide)⟩

/-- A name of 256 letters, which is one more than a disk allows. -/
def longName : String := String.ofList (List.replicate 256 'a')

/-- **A search that fails without an exit code.** A name that is too long is no path that exists,
but the run ends with the fault of looking it up. -/
theorem exit_of_longName :
    let parse : Parser := fun _ => { root := loopTree, patched := false }
    Settings.ofArguments [longName] = .ok { paths := some [Path.ofString longName] } ∧
    Frame.sampleDisk.collect sourceSuffixes [Path.ofString longName] =
      .error (.access (.tooLong longName)) ∧
    (command.run parse Frame.sampleDisk [longName]).map Outcome.exit =
      .error (.access (.tooLong longName)) := by
  intro parse
  have haccepted : Settings.ofArguments [longName] =
      .ok { paths := some [Path.ofString longName] } := by
    refine Settings.ofArguments_of_plain (by simp) fun arg harg => ?_
    rw [List.mem_singleton.1 harg]
    decide +kernel
  have hletters : longName.toList = List.replicate 256 'a' := String.toList_ofList
  have hcollect : Frame.sampleDisk.collect sourceSuffixes [Path.ofString longName] =
      .error (.access (.tooLong longName)) := by
    refine Disk.collect_of_longName (by decide +kernel) ?_ ?_ (by decide +kernel) rfl
    · rw [hletters]
      exact fun hslash => absurd (List.eq_of_mem_replicate hslash) (by decide)
    · rw [hletters]
      exact fun hnul => absurd (List.eq_of_mem_replicate hnul) (by decide)
  refine ⟨haccepted, hcollect, ?_⟩
  rw [exit_run haccepted trivial]
  show verdict parse Frame.sampleDisk _ [Path.ofString longName] = _
  rw [verdict, hcollect]

end Program

end ScopeScore
