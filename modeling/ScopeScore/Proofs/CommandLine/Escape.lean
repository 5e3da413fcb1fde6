import ScopeScore.Proofs.CommandLine.Verdict

set_option autoImplicit false

/-! # Runs that end without an exit code

Input may be bad in many ways. A run should answer to all of them with the exit code 1 and a
message, but the search alone is guarded: what goes wrong while files are read ends the run as it
is.

* `Frame.run_ofFiles_of_unreadable`: the first file that cannot be read decides.
* **`Program.run_returns_iff`**: a run with the report on the screen returns exactly if no path is
  too long and all files that were found decode. What stops it otherwise is the path, or the first
  file that does not decode.
* `Program.run_faultyDisk`: so a single octet stops a run.
-/

namespace ScopeScore

/-! ## Files that cannot be read -/

namespace Frame

variable {d : Disk} {parse : Parser} {f : Category → Int} {q : Path} {e : Failure}

theorem run_rowsOfFile_of_unreadable (hq : d.readText q = .error e) (a : Analyzer) (h : History) :
    (rowsOfFile d parse a q).run h = .error e h := by
  have hsource : Source.ofPath d q = .error e := by
    show (do return { path := some q, text := some (← d.readText q) } : Except Failure Source) = _
    rw [hq]
    rfl
  unfold rowsOfFile
  rw [EStateM.run_bind, hsource]
  rfl

/-- **The first file that cannot be read decides**, however many follow. -/
theorem run_ofFiles_of_unreadable {a : Analyzer} (ints : ∀ c, a.weights.get c = .int (f c))
    {before : List Path} (hbefore : ∀ p ∈ before, d.Reportable parse p)
    (hq : d.readText q = .error e) (after : List Path) (h : History) :
    ∃ h₁, (ofFiles d parse a (before ++ q :: after)).run h = .error e h₁ := by
  have hrows : ∃ h₁, (rowsOfFiles d parse a (before ++ q :: after)).run h = .error e h₁ := by
    induction before generalizing a h with
    | nil =>
        refine ⟨h, ?_⟩
        rw [List.nil_append, rowsOfFiles, EStateM.run_bind, run_rowsOfFile_of_unreadable hq]
    | cons p before ih =>
        obtain ⟨b, h₁, hfirst, hweights⟩ := run_rowsOfFile ints (hbefore p List.mem_cons_self) h
        obtain ⟨h₂, hrest⟩ := ih (a := b) (fun c => hweights ▸ ints c)
          (fun x hx => hbefore x (List.mem_cons_of_mem p hx)) h₁
        refine ⟨h₂, ?_⟩
        rw [List.cons_append, rowsOfFiles, EStateM.run_bind, hfirst]
        show EStateM.run (do return d.rowsAt parse f p ++
          (← rowsOfFiles d parse b (before ++ q :: after))) h₁ = _
        rw [EStateM.run_bind, hrest]
  obtain ⟨h₁, hrun⟩ := hrows
  refine ⟨h₁, ?_⟩
  rw [ofFiles, EStateM.run_bind, hrun]

end Frame

/-! ## How a run ends -/

namespace Disk

variable {d : Disk} {q : Path} {octets : List UInt8}

/-- What is wrong with a file that does not decode. -/
theorem exists_fault_of_not_decodes (hopen : d.readFile q = .ok octets) (h : ¬ d.Decodes q) :
    ∃ fault, Utf8.decode octets = .error fault ∧ d.readText q = .error (.undecodable fault) := by
  cases hdecode : Utf8.decode octets with
  | ok text =>
      refine absurd (fun other hother => ?_) h
      rw [hopen, Except.ok.injEq] at hother
      exact ⟨text, hother ▸ hdecode⟩
  | error fault =>
      refine ⟨fault, rfl, ?_⟩
      rw [readText, hopen]
      simp only [bind, Except.bind, hdecode]
      rfl

end Disk

namespace Program

variable {p : Program} {parse : Parser} {d : Disk} {args : List String} {s : Settings}

/-- A search that fails for any cause but a path that is too long is answered by its message. -/
theorem run_of_collect_eq_error (accepted : Settings.ofArguments args = .ok s) {e : Failure}
    (hcollect : d.collect sourceSuffixes (s.paths.getD []) = .error e)
    (hother : ∀ cause, e ≠ .access cause) :
    p.run parse d args = .ok { exit := 1, stderr := e.message ++ "\n", disk := d } := by
  unfold run
  rw [accepted]
  simp only [hcollect]

theorem run_of_tooLong (accepted : Settings.ofArguments args = .ok s) {cause : AccessError}
    (hcollect : d.collect sourceSuffixes (s.paths.getD []) = .error (.access cause)) :
    p.run parse d args = .error (.access cause) := by
  unfold run
  rw [accepted]
  simp only [hcollect]

theorem exists_outcome_of_exit {code : Nat}
    (h : (p.run parse d args).map Outcome.exit = .ok code) :
    ∃ outcome, p.run parse d args = .ok outcome ∧ outcome.exit = code := by
  cases hrun : p.run parse d args with
  | error e =>
      rw [hrun] at h
      cases h
  | ok outcome =>
      rw [hrun] at h
      exact ⟨outcome, rfl, Except.ok.inj h⟩

theorem run_of_decodes (regular : d.isRegular = true) (legible : parse.Legible)
    (accepted : Settings.ofArguments args = .ok s) {t : Amount} (threshold : s.threshold = some t)
    (screen : s.output = .screen) {files : List Path}
    (hcollect : d.collect sourceSuffixes (s.paths.getD []) = .ok files)
    (hdecodes : ∀ q ∈ files, d.Decodes q) :
    ∃ outcome, p.run parse d args = .ok outcome ∧ (outcome.exit = 0 ∨ outcome.exit = 2) := by
  have readable : ∀ q ∈ files, ∃ text, d.readText q = .ok text := by
    intro q hq
    obtain ⟨octets, hopen⟩ := Disk.exists_readFile_of_mem_collect regular hcollect hq
    exact Disk.exists_readText hopen (hdecodes q hq)
  have target : s.output.Takes d := by
    rw [screen]
    trivial
  have hexit : (p.run parse d args).map Outcome.exit =
      verdict parse d s.threshold (s.paths.getD []) := exit_run accepted target
  rw [verdict, hcollect, threshold] at hexit
  simp only [verdictOn_of_readable legible readable t] at hexit
  obtain ⟨outcome, hrun, hcode⟩ := exists_outcome_of_exit hexit
  refine ⟨outcome, hrun, ?_⟩
  rw [hcode]
  split
  · exact Or.inr rfl
  · exact Or.inl rfl

theorem run_of_not_decodes (legible : parse.Legible)
    (accepted : Settings.ofArguments args = .ok s) {before after : List Path} {q : Path}
    (hcollect : d.collect sourceSuffixes (s.paths.getD []) = .ok (before ++ q :: after))
    (hbefore : ∀ x ∈ before, ∃ text, d.readText x = .ok text) {e : Failure}
    (hq : d.readText q = .error e) : p.run parse d args = .error e := by
  obtain ⟨h₁, hframe⟩ := Frame.run_ofFiles_of_unreadable (a := {}) Weights.get_default
    (fun x hx => Disk.reportable_of_readable legible (hbefore x hx)) hq after {}
  unfold run report
  rw [accepted]
  simp only [hcollect, hframe]

/-- The ways in which a run with the report on the screen may end, by what the search gives. -/
inductive Ends (d : Disk) (collected : Except Failure (List Path)) :
    Except Failure Outcome → Prop where
  /-- The search meets a path that is too long. -/
  | stopped (path : String) (search : collected = .error (.access (.tooLong path))) :
      Ends d collected (.error (.access (.tooLong path)))
  /-- The search fails for another cause, and that is told. -/
  | refused (e : Failure) (search : collected = .error e) (cause : ∀ cause, e ≠ .access cause) :
      Ends d collected (.ok { exit := 1, stderr := e.message ++ "\n", disk := d })
  /-- All files can be read. -/
  | judged (files : List Path) (outcome : Outcome) (search : collected = .ok files)
      (decode : ∀ q ∈ files, d.Decodes q) (exit : outcome.exit = 0 ∨ outcome.exit = 2) :
      Ends d collected (.ok outcome)
  /-- The first file that does not decode. -/
  | broken (before : List Path) (q : Path) (after : List Path) (octets : List UInt8)
      (fault : Utf8.Invalid) (search : collected = .ok (before ++ q :: after))
      (decode : ∀ x ∈ before, d.Decodes x) (opens : d.readFile q = .ok octets)
      (decodes : Utf8.decode octets = .error fault) :
      Ends d collected (.error (.undecodable fault))

/-- **How a run ends.** -/
theorem ends_run (regular : d.isRegular = true) (legible : parse.Legible)
    (accepted : Settings.ofArguments args = .ok s) {t : Amount} (threshold : s.threshold = some t)
    (screen : s.output = .screen) :
    Ends d (d.collect sourceSuffixes (s.paths.getD [])) (p.run parse d args) := by
  cases hcollect : d.collect sourceSuffixes (s.paths.getD []) with
  | error e =>
      by_cases haccess : ∃ cause, e = .access cause
      · obtain ⟨cause, rfl⟩ := haccess
        obtain ⟨path, hpath⟩ : ∃ path, cause = .tooLong path := by
          rcases Disk.cause_of_collect_eq_error hcollect with ⟨_, h⟩ | h | ⟨path, h⟩
          · cases h
          · cases h
          · exact ⟨path, Failure.access.inj h⟩
        rw [run_of_tooLong accepted hcollect, hpath]
        exact .stopped path rfl
      · have hother : ∀ cause, e ≠ .access cause := fun cause h => haccess ⟨cause, h⟩
        rw [run_of_collect_eq_error accepted hcollect hother]
        exact .refused e rfl hother
  | ok files =>
      by_cases hdecodes : ∀ q ∈ files, d.Decodes q
      · obtain ⟨outcome, hrun, hexit⟩ :=
          run_of_decodes (p := p) regular legible accepted threshold screen hcollect hdecodes
        rw [hrun]
        exact .judged files outcome rfl hdecodes hexit
      · obtain ⟨before, q, after, rfl, hbefore, hq⟩ := exists_first_of_not_forall hdecodes
        have hopens : ∀ x ∈ before ++ q :: after, ∃ octets, d.readFile x = .ok octets :=
          fun x hx => Disk.exists_readFile_of_mem_collect regular hcollect hx
        obtain ⟨octets, hoctets⟩ := hopens q (by simp)
        obtain ⟨fault, hfault, hread⟩ := Disk.exists_fault_of_not_decodes hoctets hq
        have hreadable : ∀ x ∈ before, ∃ text, d.readText x = .ok text := by
          intro x hx
          obtain ⟨others, hothers⟩ := hopens x (by simp [hx])
          exact Disk.exists_readText hothers (hbefore x hx)
        rw [run_of_not_decodes legible accepted hcollect hreadable hread]
        exact .broken before q after octets fault rfl hbefore hoctets hfault

/-- **When a run returns.** Let the disk be regular, the parser keep texts whole, and the command
line be accepted, with a threshold and with the report on the screen.

* The run returns exactly if the search does not stop at a path that is too long, and all files that
  it finds decode.
* If it returns, the exit code is 0, 1 or 2. It is 1 exactly if the search fails, and then nothing
  is printed but the message of the search, as an error.
* If it does not return, what stops it is the path that is too long, or the fault of the first file
  that does not decode. -/
theorem run_returns_iff (p : Program) (parse : Parser) (d : Disk) (args : List String)
    (s : Settings) (t : Amount) (regular : d.isRegular = true) (legible : parse.Legible)
    (accepted : Settings.ofArguments args = .ok s) (threshold : s.threshold = some t)
    (screen : s.output = .screen) :
    let run := p.run parse d args
    let collected := d.collect sourceSuffixes (s.paths.getD [])
    ((∃ outcome, run = .ok outcome) ↔
      (∀ path, collected ≠ .error (.access (.tooLong path))) ∧
      ∀ files, collected = .ok files → ∀ q ∈ files, d.Decodes q) ∧
    (∀ outcome, run = .ok outcome →
      (outcome.exit = 0 ∨ outcome.exit = 1 ∨ outcome.exit = 2) ∧
      (outcome.exit = 1 ↔ ∃ e, collected = .error e) ∧
      ∀ e, collected = .error e → outcome.stdout = "" ∧ outcome.stderr = e.message ++ "\n") ∧
    ∀ e, run = .error e →
      (collected = .error e ∧ ∃ path, e = .access (.tooLong path)) ∨
      ∃ before q after octets fault, collected = .ok (before ++ q :: after) ∧
        (∀ x ∈ before, d.Decodes x) ∧ d.readFile q = .ok octets ∧
        Utf8.decode octets = .error fault ∧ e = .undecodable fault := by
  intro run collected
  have hends : Ends d collected run := ends_run regular legible accepted threshold screen
  clear_value run collected
  cases hends with
  | stopped path search =>
      subst search
      simp
  | refused e search cause =>
      subst search
      refine ⟨?_, ?_, ?_⟩
      · constructor
        · intro _
          exact ⟨fun path h => cause _ (Except.error.inj h), by simp⟩
        · intro _
          exact ⟨_, rfl⟩
      · rintro _ ⟨⟩
        simp
      · intro _ h
        cases h
  | judged files outcome search decode exit =>
      subst search
      refine ⟨?_, ?_, ?_⟩
      · constructor
        · intro _
          refine ⟨by simp, ?_⟩
          rintro _ ⟨⟩
          exact decode
        · intro _
          exact ⟨outcome, rfl⟩
      · rintro _ ⟨⟩
        simp only [reduceCtorEq, exists_false, iff_false, false_implies, implies_true, and_true]
        omega
      · intro _ h
        cases h
  | broken before q after octets fault search decode opens decodes =>
      subst search
      refine ⟨?_, ?_, ?_⟩
      · constructor
        · rintro ⟨_, h⟩
          cases h
        · rintro ⟨-, hall⟩
          obtain ⟨text, htext⟩ := hall _ rfl q (by simp) octets opens
          rw [decodes] at htext
          cases htext
      · intro _ h
        cases h
      · rintro _ ⟨⟩
        exact Or.inr ⟨before, q, after, octets, fault, rfl, decode, opens, decodes, rfl⟩

/-- On a disk with a file the run returns, and a path that does not exist is told. -/
theorem run_sampleDisk :
    let parse : Parser := fun _ => { root := sampleTree, patched := false }
    (∃ outcome, command.run parse Frame.sampleDisk ["a.js"] = .ok outcome) ∧
    ∃ outcome, command.run parse Frame.sampleDisk ["c.js"] = .ok outcome ∧ outcome.exit = 1 ∧
      outcome.stdout = "" ∧ outcome.stderr = "No such file or directory: c.js\n" := by
  intro parse
  have hplain : ∀ arg ∈ ["a.js", "c.js"], arg.startsWith "-" = false := by decide +kernel
  have haccepted : ∀ arg ∈ ["a.js", "c.js"],
      Settings.ofArguments [arg] = .ok { paths := some [Path.ofString arg] } := by
    intro arg harg
    refine Settings.ofArguments_of_plain (by simp) fun x hx => ?_
    rw [List.mem_singleton.1 hx]
    exact hplain arg harg
  have hfound : Frame.sampleDisk.collect sourceSuffixes [Path.ofString "a.js"] =
      .ok [Path.ofString "a.js"] := by decide +kernel
  have hmissing : Frame.sampleDisk.collect sourceSuffixes [Path.ofString "c.js"] =
      .error (.noSuchPath "c.js") := by decide +kernel
  have hreturns := fun arg harg => run_returns_iff command parse Frame.sampleDisk [arg] _ (.int 50)
    (by decide) (fun _ => by decide) (haccepted arg harg) rfl rfl
  refine ⟨(hreturns "a.js" (by simp)).1.2 ⟨fun path h => ?_, fun files h => ?_⟩, ?_⟩
  · cases hfound.symm.trans h
  · cases hfound.symm.trans h
    intro q hq octets hopen
    rw [List.mem_singleton.1 hq] at hopen
    obtain rfl : [120] = octets := Except.ok.inj hopen
    exact ⟨"x", by decide⟩
  · obtain ⟨hiff, hcode, -⟩ := hreturns "c.js" (by simp)
    obtain ⟨outcome, hrun⟩ := hiff.2 ⟨fun path h => (by cases hmissing.symm.trans h),
      fun files h => (by cases hmissing.symm.trans h)⟩
    obtain ⟨-, hone, hmessage⟩ := hcode outcome hrun
    obtain ⟨hstdout, hstderr⟩ := hmessage _ hmissing
    exact ⟨outcome, hrun, hone.2 ⟨_, hmissing⟩, hstdout, hstderr⟩

/-- A disk with one file, in which an octet begins no character. -/
def faultyDisk : Disk := { root := .folder "" [.file "a.js" [255]] }

/-- **An octet that stops a run.** The fault of the file is not answered by an exit code. -/
theorem run_faultyDisk :
    let parse : Parser := fun _ => { root := sampleTree, patched := false }
    Settings.ofArguments ["a.js"] = .ok { paths := some [Path.ofString "a.js"] } ∧
    faultyDisk.collect sourceSuffixes [Path.ofString "a.js"] = .ok [Path.ofString "a.js"] ∧
    command.run parse faultyDisk ["a.js"] =
      .error (.undecodable { position := 0, octets := [255], reason := .startByte }) := by
  intro parse
  have haccepted : Settings.ofArguments ["a.js"] = .ok { paths := some [Path.ofString "a.js"] } :=
    Settings.ofArguments_of_plain (by simp) (by decide +kernel)
  have hcollect : faultyDisk.collect sourceSuffixes [Path.ofString "a.js"] =
      .ok ([] ++ Path.ofString "a.js" :: []) := by decide +kernel
  refine ⟨haccepted, hcollect, ?_⟩
  exact run_of_not_decodes (fun _ => by decide) haccepted hcollect (by simp) (by decide)

end Program

end ScopeScore
