import ScopeScore.Proofs.Analyzer.Isolation
import ScopeScore.Source

set_option autoImplicit false

/-! # The tree of a source

Asking a source for its tree may parse its text and may warn of it. What is answered, what is kept
and what is told is said here by cases: there is no text, there is a tree already, or the source is
unread. Only then the parser is used (`Source.ast_congr`).

Analysing a source does with its tree what a new analyzer does, behind what went before
(`Source.repeats_analyze`), and warns of nothing more (`Analyzer.warnings_analyze`).
-/

namespace ScopeScore

/-! ## Warnings -/

/-- The source of which an event warns. -/
def Event.warning? : Event → Option String
  | .patchedTree source => some source
  | .scopeEntered .. | .scored .. => none

/-- The sources of which a log warns, in order. -/
def Log.warnings (log : Log) : List String := log.toList.filterMap Event.warning?

theorem Log.warnings_push (log : Log) (e : Event) :
    Log.warnings (log.push e) = Log.warnings log ++ e.warning?.toList := by
  rw [warnings, warnings, Array.toList_push, List.filterMap_append]
  cases hwarning : e.warning? <;> simp [hwarning]

namespace Step

variable (w : Weights) (outer : List Node)

theorem warnings_final_perform (c : Call) (s : Session) :
    (final (c.perform (enter w outer) leave) s).history.log.warnings = s.history.log.warnings := by
  cases c with
  | leave t =>
      show (s.close t.node).history.log.warnings = _
      rw [Session.history_close]
  | enter t =>
      have hcharge : (final (chargeAll (t.visit.node.charge w)) s).history.log = s.history.log := by
        rcases final_chargeAll (t.visit.node.charge w) s with h | ⟨top, own, -, h⟩
        · rw [h]
        · rw [h]
          rfl
      rcases final_enter_cases w outer t.visit s with h | ⟨r, h, -⟩
      · show (final (enter w outer t.visit) s).history.log.warnings = _
        rw [h, hcharge]
      · show (final (enter w outer t.visit) s).history.log.warnings = _
        rw [h]
        show Log.warnings (Array.push _ (.scopeEntered _ _)) = _
        rw [Log.warnings_push, hcharge]
        simp [Event.warning?]

theorem warnings_final_makeAll (cs : List Call) (s : Session) :
    (final (makeAll w outer cs) s).history.log.warnings = s.history.log.warnings := by
  induction cs generalizing s with
  | nil => rfl
  | cons c cs ih =>
      rcases final_makeAll_cons w outer c cs s with h | h
      · rw [h, warnings_final_perform]
      · rw [h, ih, warnings_final_perform]

end Step

/-- An analysis warns of nothing. -/
theorem Analyzer.warnings_analyze (a : Analyzer) (tree : Option Place) (r : Recorder)
    (h : History) : (a.analyze tree r h).history.log.warnings = h.log.warnings := by
  cases tree with
  | none => rfl
  | some place =>
      rw [(a.analyze_eq_final place r h).1]
      exact Step.warnings_final_makeAll a.weights place.above place.node.calls _

/-! ## The tree of a source -/

namespace Source

/-- Is there a text and no tree yet? -/
def isUnread (s : Source) : Bool := !s.isEmpty && s.tree.isNone

/-- The text as it is parsed. -/
def code (s : Source) : String := s.text.getD ""

variable {parse : Parser} {s : Source} {h : History}

theorem isEmpty_iff : s.isEmpty = true ↔ s.code = "" := by
  simp [isEmpty, code]

theorem ast_of_empty (hs : s.code = "") (parse : Parser) (h : History) :
    s.ast parse h = (none, s, h) := if_pos (isEmpty_iff.2 hs)

theorem ast_of_tree (hs : s.code ≠ "") {tree : Parsed} (htree : s.tree = some tree)
    (parse : Parser) (h : History) : s.ast parse h = (some tree, s, h) := by
  rw [ast, if_neg fun hempty => hs (isEmpty_iff.1 hempty), htree]

theorem ast_of_unread (hs : s.code ≠ "") (htree : s.tree = none) (parse : Parser) (h : History) :
    s.ast parse h = (some (parse s.code), { s with tree := some (parse s.code) },
      if (parse s.code).patched then h.tell (.patchedTree s.name) else h) := by
  rw [ast, if_neg fun hempty => hs (isEmpty_iff.1 hempty), htree]
  rfl

theorem isUnread_iff : s.isUnread = true ↔ s.code ≠ "" ∧ s.tree = none := by
  simp [isUnread, isEmpty, code]

/-- What is answered: the tree that is kept, or a new one. -/
theorem ast_fst (parse : Parser) (s : Source) (h : History) :
    (s.ast parse h).1 = if s.code = "" then none else s.tree.or (some (parse s.code)) := by
  by_cases hs : s.code = ""
  · rw [ast_of_empty hs, if_pos hs]
  · cases htree : s.tree with
    | none => rw [ast_of_unread hs htree, if_neg hs, Option.none_or]
    | some tree => rw [ast_of_tree hs htree, if_neg hs, Option.some_or]

/-- What is kept. -/
theorem ast_source (parse : Parser) (s : Source) (h : History) :
    (s.ast parse h).2.1 =
      { s with tree := s.tree.or (if s.code = "" then none else some (parse s.code)) } := by
  by_cases hs : s.code = ""
  · rw [ast_of_empty hs, if_pos hs, Option.or_none]
  · cases htree : s.tree with
    | none => rw [ast_of_unread hs htree, if_neg hs, Option.none_or]
    | some tree => rw [ast_of_tree hs htree, Option.some_or, ← htree]

theorem ast_scopes (parse : Parser) (s : Source) (h : History) :
    (s.ast parse h).2.2.scopes = h.scopes := by
  by_cases hs : s.code = ""
  · rw [ast_of_empty hs]
  · cases htree : s.tree with
    | none =>
        rw [ast_of_unread hs htree]
        by_cases hpatched : (parse s.code).patched = true <;> simp [hpatched, History.tell]
    | some tree => rw [ast_of_tree hs htree]

/-- What is told: a tree that was patched up, when it is made. -/
theorem ast_warnings (parse : Parser) (s : Source) (h : History) :
    (s.ast parse h).2.2.log.warnings = h.log.warnings ++
      if s.isUnread = true ∧ (parse s.code).patched = true then [s.name] else [] := by
  by_cases hs : s.code = ""
  · rw [ast_of_empty hs]
    simp [isUnread_iff, hs]
  · cases htree : s.tree with
    | some tree =>
        rw [ast_of_tree hs htree]
        simp [isUnread_iff, htree]
    | none =>
        have hunread : s.isUnread = true := isUnread_iff.2 ⟨hs, htree⟩
        rw [ast_of_unread hs htree]
        by_cases hpatched : (parse s.code).patched = true
        · simp [hpatched, hunread, History.tell, Log.warnings_push, Event.warning?]
        · simp [hpatched]

/-- The parser is used only if there is a text and no tree yet. -/
theorem ast_congr (hs : s.isUnread = false) (parse parse' : Parser) (h : History) :
    s.ast parse h = s.ast parse' h := by
  by_cases hcode : s.code = ""
  · rw [ast_of_empty hcode, ast_of_empty hcode]
  · cases htree : s.tree with
    | some tree => rw [ast_of_tree hcode htree, ast_of_tree hcode htree]
    | none =>
        rw [isUnread_iff.2 ⟨hcode, htree⟩] at hs
        cases hs

theorem analyze_congr (hs : s.isUnread = false) (parse parse' : Parser) (a : Analyzer)
    (h : History) : s.analyze parse a h = s.analyze parse' a h := by
  unfold analyze
  rw [ast_congr hs parse parse' h]

/-- What an analysis of a source leaves behind, as the run of an analyzer. -/
def Result.analysis (result : Result) : Analysis where
  analyzer := result.analyzer
  recorder := { records := result.source.records }
  history := result.history
  failure := result.failure

/-- Analysing a source does what a new analyzer does with its tree, behind what went before. -/
theorem repeats_analyze (parse : Parser) (a : Analyzer) (s : Source) (h : History) :
    (s.analyze parse a h).analysis.Repeats
      (({ weights := a.weights } : Analyzer).analyze
        ((s.ast parse h).1.map fun tree => Place.top tree.root) Recorder.unlimited {})
      (s.ast parse h).2.2 Recorder.unlimited := by
  have hrun := a.analyze_after ((s.ast parse h).1.map fun tree => Place.top tree.root)
    Recorder.unlimited (s.ast parse h).2.2
  -- a recorder without a limit stays one, so its records are all that it is
  have hrecorder := congrArg (fun r : Recorder => ({ records := r.records } : Recorder))
    hrun.recorder
  exact ⟨hrun.failure, hrecorder, hrun.stack, hrun.log, hrun.size, hrun.scope, hrun.signature,
    hrun.score⟩

end Source

end ScopeScore
