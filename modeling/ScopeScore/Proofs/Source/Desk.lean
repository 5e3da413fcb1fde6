import ScopeScore.Proofs.Source.Tree

set_option autoImplicit false

/-! # Sources in use

A source keeps its tree once it was made, even if its text changes, and its records until it is
analysed again. So what it answers depends on all that was done with it before.

A `Desk` is any number of sources and analyzers under names, with the history that they share. A
`Turn` is something done with a source, at a time when some parser is at hand: each turn brings its
own parser, and so shows when a parser is used. What a source should hold after some turns can be
said without its cache:

* `Turn.textAfter`: the text that was assigned last;
* `Turn.firstTree?`: the tree of the text that it had when the tree was first asked for and there
  was one to be made;
* `Turn.addedBefore`: what is added before it is analysed again.

A turn parses its source if the source gets its tree in it (`Desk.parses`), and a list of records
that was handed out is looked up by its number in the source (`Source.lists`). So both are read off
the states, and nothing is kept of the turns themselves.

**`Desk.turns_of_source`** says that so it is, that each source is parsed once at most and warned of
then only, that analysing it gives what a new analyzer gives, and that a list of records that was
handed out changes by additions only, and only until the source is analysed again.
-/

namespace ScopeScore

/-! ## Turns -/

/-- Something that is done with a source. -/
inductive Act (σ α : Type) where
  | assign (source : σ) (text : Option String)
  | ast (source : σ)
  /-- With one of the analyzers, or with a new one. -/
  | analyze (source : σ) (analyzer : Option α)
  | add (source : σ) (record : ScopeId)
  /-- Its root, its score or what its records tell is asked for. -/
  | look (source : σ)

namespace Act

variable {σ α : Type}

/-- The source with which it is done. -/
def source : Act σ α → σ
  | .assign x _ | .ast x | .analyze x _ | .add x _ | .look x => x

/-- Is the tree of the source asked for? -/
def asks : Act σ α → Bool
  | .ast _ | .analyze .. => true
  | .assign .. | .add .. | .look _ => false

/-- Is the source analysed? -/
def analyses : Act σ α → Bool
  | .analyze .. => true
  | .assign .. | .ast _ | .add .. | .look _ => false

end Act

/-- Something that is done, and the parser that is at hand. -/
structure Turn (σ α : Type) where
  parse : Parser
  act : Act σ α

namespace Turn

variable {σ α : Type} [DecidableEq σ] (x : σ)

/-- The text of `x` after a turn. -/
def text (old : Option String) (turn : Turn σ α) : Option String :=
  match turn.act with
  | .assign y new => if y = x then new else old
  | _ => old

/-- The tree of `x` for which a turn asks, if there is a text to be parsed. -/
def tree? (text : Option String) (turn : Turn σ α) : Option Parsed :=
  if turn.act.asks = true ∧ turn.act.source = x ∧ text.getD "" ≠ "" then
    some (turn.parse (text.getD ""))
  else none

/-- What a turn adds to the records of `x`. -/
def added (turn : Turn σ α) : List ScopeId :=
  match turn.act with
  | .add y id => if y = x then [id] else []
  | _ => []

/-- Is `x` analysed in this turn? -/
def analyses (turn : Turn σ α) : Bool := turn.act.analyses && turn.act.source = x

/-- The text that was assigned last. -/
def textAfter : Option String → List (Turn σ α) → Option String
  | text, [] => text
  | text, turn :: turns => textAfter (turn.text x text) turns

/-- The tree of the text that `x` had when, for the first time, its tree was asked for and there was
a text. -/
def firstTree? : Option String → List (Turn σ α) → Option Parsed
  | _, [] => none
  | text, turn :: turns => (turn.tree? x text).or (firstTree? (turn.text x text) turns)

/-- What is added to the records of `x` before it is analysed again. -/
def addedBefore : List (Turn σ α) → List ScopeId
  | [] => []
  | turn :: turns => if turn.analyses x then [] else turn.added x ++ addedBefore turns

end Turn

/-! ## Desks -/

/-- Sources and analyzers under names, and the history that they share. -/
structure Desk (σ α : Type) where
  sources : σ → Source
  analyzers : α → Analyzer
  history : History

namespace Desk

variable {σ α : Type}

/-- Sources that were just made. -/
def start (paths : σ → Option Path) (texts : σ → Option String) (analyzers : α → Analyzer)
    (history : History) : Desk σ α where
  sources := fun x => { path := paths x, text := texts x }
  analyzers := analyzers
  history := history

/-- The analyzer of this name, or a new one. -/
def analyzer (b : Desk σ α) (name : Option α) : Analyzer := (name.map b.analyzers).getD {}

variable [DecidableEq σ] [DecidableEq α]

/-- What is left when the tree of `x` was asked for. -/
def afterAsking (b : Desk σ α) (parse : Parser) (x : σ) : Desk σ α :=
  let (_, source, history) := (b.sources x).ast parse b.history
  { b with sources := Function.update b.sources x source, history }

/-- What is left when `x` was analysed. -/
def afterAnalysis (b : Desk σ α) (parse : Parser) (x : σ) (name : Option α) : Desk σ α :=
  let result := (b.sources x).analyze parse (b.analyzer name) b.history
  { sources := Function.update b.sources x result.source
    analyzers := name.elim b.analyzers fun a => Function.update b.analyzers a result.analyzer
    history := result.history }

/-- What is left after a turn. -/
def after (b : Desk σ α) (turn : Turn σ α) : Desk σ α :=
  match turn.act with
  | .assign x text =>
      { b with sources := Function.update b.sources x { b.sources x with text := text } }
  | .ast x => b.afterAsking turn.parse x
  | .analyze x name => b.afterAnalysis turn.parse x name
  | .add x id => { b with sources := Function.update b.sources x ((b.sources x).add id) }
  | .look _ => b

/-- What is left after some turns. -/
def afterAll (b : Desk σ α) (turns : List (Turn σ α)) : Desk σ α := turns.foldl after b

/-! ### One turn -/

variable (b : Desk σ α) (turn : Turn σ α) (x : σ)

/-- The source that a turn leaves, but for its lists of records. -/
theorem source_after : (b.after turn).sources x =
    { b.sources x with
      text := turn.text x (b.sources x).text
      tree := (b.sources x).tree.or (turn.tree? x (b.sources x).text)
      retired := ((b.after turn).sources x).retired
      records := ((b.after turn).sources x).records } := by
  obtain ⟨parse, act⟩ := turn
  cases act with
  | assign y text =>
      by_cases hx : x = y
      · subst hx
        simp [after, Turn.text, Turn.tree?, Act.asks]
      · simp [after, Turn.text, Turn.tree?, Act.asks, hx, Ne.symm hx]
  | ast y =>
      by_cases hx : x = y
      · subst hx
        -- without a text there is nothing to parse
        by_cases hcode : (b.sources x).text.getD "" = "" <;>
          simp [after, afterAsking, Source.ast_source, Source.code, Turn.text, Turn.tree?, Act.asks,
            Act.source, hcode]
      · simp [after, afterAsking, Turn.text, Turn.tree?, Act.source, hx, Ne.symm hx]
  | analyze y name =>
      by_cases hx : x = y
      · subst hx
        by_cases hcode : (b.sources x).text.getD "" = "" <;>
          simp [after, afterAnalysis, Source.analyze, Source.turnTo, Source.ast_source, Source.code,
            Turn.text, Turn.tree?, Act.asks, Act.source, hcode]
      · simp [after, afterAnalysis, Turn.text, Turn.tree?, Act.source, hx, Ne.symm hx]
  | add y id =>
      by_cases hx : x = y
      · subst hx
        simp [after, Turn.text, Turn.tree?, Act.asks, Source.add]
      · simp [after, Turn.text, Turn.tree?, Act.asks, hx]
  | look y => simp [after, Turn.text, Turn.tree?, Act.asks]

theorem text_after : ((b.after turn).sources x).text = turn.text x (b.sources x).text := by
  rw [source_after]

theorem tree_after : ((b.after turn).sources x).tree =
    (b.sources x).tree.or (turn.tree? x (b.sources x).text) := by
  rw [source_after]

theorem name_after : ((b.after turn).sources x).name = (b.sources x).name := by
  rw [source_after]
  rfl

/-- A turn that does not analyse a source keeps its records and may add to them. -/
theorem records_after (hx : turn.analyses x = false) :
    ((b.after turn).sources x).records = (b.sources x).records ++ turn.added x := by
  obtain ⟨parse, act⟩ := turn
  cases act with
  | assign y text => by_cases hy : x = y <;> simp [after, Turn.added, hy]
  | ast y =>
      by_cases hy : x = y <;>
        simp [after, afterAsking, Turn.added, Source.ast_source, hy]
  | analyze y name =>
      have hy : x ≠ y := by
        rintro rfl
        simp [Turn.analyses, Act.analyses, Act.source] at hx
      simp [after, afterAnalysis, Turn.added, Function.update_of_ne hy]
  | add y id =>
      by_cases hy : x = y
      · subst hy
        simp [after, Turn.added, Source.add]
      · simp [after, Turn.added, Function.update_of_ne hy, Ne.symm hy]
  | look y => simp [after, Turn.added]

/-- Analysing a source gives up its list of records, and nothing else does. -/
theorem retired_after : ((b.after turn).sources x).retired =
    if turn.analyses x then (b.sources x).lists else (b.sources x).retired := by
  obtain ⟨parse, act⟩ := turn
  cases act with
  | assign y text | add y id =>
      by_cases hy : x = y <;> simp [after, Turn.analyses, Act.analyses, Source.add, hy]
  | ast y =>
      by_cases hy : x = y <;>
        simp [after, afterAsking, Turn.analyses, Act.analyses, Source.ast_source, hy]
  | analyze y name =>
      by_cases hy : x = y
      · subst hy
        simp [after, afterAnalysis, Turn.analyses, Act.analyses, Act.source, Source.analyze,
          Source.turnTo, Source.lists, Source.ast_source]
      · simp [after, afterAnalysis, Turn.analyses, Act.source, Function.update_of_ne hy, Ne.symm hy]
  | look => simp [after, Turn.analyses, Act.analyses]

theorem weights_after (name : Option α) :
    ((b.after turn).analyzer name).weights = (b.analyzer name).weights := by
  cases name with
  | none => rfl
  | some a =>
      obtain ⟨parse, act⟩ := turn
      cases act with
      | analyze y used =>
          cases used with
          | none => rfl
          | some c =>
              by_cases ha : a = c
              · subst ha
                simp [after, afterAnalysis, analyzer, Source.analyze, Analyzer.weights_analyze]
              · simp [after, afterAnalysis, analyzer, Function.update_of_ne ha]
      | assign | ast | add | look => rfl

/-- A turn changes no scope that was there before. -/
theorem keeps_after : b.history.scopes.Keeps (b.after turn).history.scopes := by
  obtain ⟨parse, act⟩ := turn
  cases act with
  | ast y =>
      have hscopes : (b.after ⟨parse, .ast y⟩).history.scopes = b.history.scopes :=
        Source.ast_scopes parse (b.sources y) b.history
      rw [hscopes]
      exact Store.Keeps.refl _
  | analyze y name =>
      have hkeeps := Analyzer.keeps_analyze (b.analyzer name)
        (((b.sources y).ast parse b.history).1.map fun tree => Place.top tree.root)
        Recorder.unlimited ((b.sources y).ast parse b.history).2.2
      rw [Source.ast_scopes] at hkeeps
      exact hkeeps
  | assign | add | look => exact Store.Keeps.refl _

/-- Does a turn parse its source? The source has no tree before it, and has one afterwards. -/
def parses : Bool :=
  (b.sources turn.act.source).tree.isNone && ((b.after turn).sources turn.act.source).tree.isSome

theorem parses_eq : b.parses turn = (turn.act.asks && (b.sources turn.act.source).isUnread) := by
  rw [parses, tree_after, Turn.tree?, Source.isUnread, Source.isEmpty]
  cases (b.sources turn.act.source).tree with
  | some tree => simp
  | none =>
      cases turn.act.asks with
      | false => simp
      | true => by_cases htext : (b.sources turn.act.source).text.getD "" = "" <;> simp [htext]

/-- A turn that makes no tree does the same with another parser. -/
theorem after_congr (hturn : b.parses turn = false) (parse : Parser) :
    b.after { turn with parse } = b.after turn := by
  rw [parses_eq] at hturn
  obtain ⟨old, act⟩ := turn
  cases act with
  | ast y =>
      have hunread : (b.sources y).isUnread = false := by
        simpa [Act.asks, Act.source] using hturn
      simp only [after, afterAsking]
      rw [Source.ast_congr hunread parse old]
  | analyze y name =>
      have hunread : (b.sources y).isUnread = false := by
        simpa [Act.asks, Act.source] using hturn
      simp only [after, afterAnalysis]
      rw [Source.analyze_congr hunread parse old]
  | assign | add | look => rfl

theorem warnings_after : (b.after turn).history.log.warnings = b.history.log.warnings ++
    if b.parses turn ∧ (turn.parse (b.sources turn.act.source).code).patched then
      [(b.sources turn.act.source).name] else [] := by
  rw [parses_eq]
  obtain ⟨parse, act⟩ := turn
  cases act with
  | ast y =>
      have hast := Source.ast_warnings parse (b.sources y) b.history
      simpa [after, afterAsking, Act.asks, Act.source] using hast
  | analyze y name =>
      have hast := Source.ast_warnings parse (b.sources y) b.history
      have hrun : (b.after ⟨parse, .analyze y name⟩).history.log.warnings =
          ((b.sources y).ast parse b.history).2.2.log.warnings :=
        Analyzer.warnings_analyze ..
      simpa [hrun, Act.asks, Act.source] using hast
  | assign | add | look => simp [after, Act.asks]

/-! ### Many turns -/

variable (turns : List (Turn σ α))

theorem text_afterAll : ((b.afterAll turns).sources x).text =
    Turn.textAfter x (b.sources x).text turns := by
  induction turns generalizing b with
  | nil => rfl
  | cons turn turns ih =>
      show (((b.after turn).afterAll turns).sources x).text = _
      rw [ih, text_after]
      rfl

/-- A tree that is there stays; otherwise the first one that is asked for is kept. -/
theorem tree_afterAll : ((b.afterAll turns).sources x).tree =
    (b.sources x).tree.or (Turn.firstTree? x (b.sources x).text turns) := by
  induction turns generalizing b with
  | nil => exact Option.or_none.symm
  | cons turn turns ih =>
      show (((b.after turn).afterAll turns).sources x).tree = _
      rw [ih, tree_after, text_after, Option.or_assoc]
      rfl

theorem name_afterAll : ((b.afterAll turns).sources x).name = (b.sources x).name := by
  induction turns generalizing b with
  | nil => rfl
  | cons turn turns ih => exact (ih (b.after turn)).trans (b.name_after turn x)

theorem weights_afterAll (name : Option α) :
    ((b.afterAll turns).analyzer name).weights = (b.analyzer name).weights := by
  induction turns generalizing b with
  | nil => rfl
  | cons turn turns ih => exact (ih (b.after turn)).trans (b.weights_after turn name)

theorem keeps_afterAll : b.history.scopes.Keeps (b.afterAll turns).history.scopes := by
  induction turns generalizing b with
  | nil => exact Store.Keeps.refl _
  | cons turn turns ih => exact (b.keeps_after turn).trans (ih (b.after turn))

theorem length_retired_afterAll : ((b.afterAll turns).sources x).retired.length =
    (b.sources x).retired.length + turns.countP (Turn.analyses x) := by
  induction turns generalizing b with
  | nil => rfl
  | cons turn turns ih =>
      show (((b.after turn).afterAll turns).sources x).retired.length = _
      rw [ih, retired_after, List.countP_cons]
      by_cases hx : turn.analyses x = true
      · simp only [hx, if_true, Source.lists, List.length_append, List.length_singleton]
        omega
      · simp only [hx]
        simp

/-- What was given up stays as it is. -/
theorem retired_isPrefix_afterAll :
    (b.sources x).retired <+: ((b.afterAll turns).sources x).retired := by
  induction turns generalizing b with
  | nil => exact List.prefix_refl _
  | cons turn turns ih =>
      have hturn : (b.sources x).retired <+: ((b.after turn).sources x).retired := by
        rw [retired_after]
        split
        · exact List.prefix_append ..
        · exact List.prefix_refl _
      exact hturn.trans (ih (b.after turn))

/-- The list that a source holds grows until the source is analysed, and not afterwards. -/
theorem lists_afterAll : ((b.afterAll turns).sources x).lists[(b.sources x).retired.length]? =
    some ((b.sources x).records ++ Turn.addedBefore x turns) := by
  induction turns generalizing b with
  | nil => simp [afterAll, Source.lists, Turn.addedBefore]
  | cons turn turns ih =>
      show (((b.after turn).afterAll turns).sources x).lists[_]? = _
      by_cases hx : turn.analyses x = true
      · -- the list is given up in this turn, and what was given up keeps its position
        have hretired : ((b.after turn).sources x).retired =
            (b.sources x).retired ++ [(b.sources x).records] := by
          rw [retired_after, if_pos hx]
          rfl
        have hkept := ((b.after turn).retired_isPrefix_afterAll x turns).trans
          (List.prefix_append _ [(((b.after turn).afterAll turns).sources x).records])
        rw [hretired] at hkept
        obtain ⟨rest, hrest⟩ := hkept
        rw [Source.lists, ← hrest, Turn.addedBefore, if_pos hx]
        simp
      · have hretired : ((b.after turn).sources x).retired = (b.sources x).retired := by
          rw [retired_after, if_neg hx]
        have hrecords := b.records_after turn x (Bool.eq_false_iff.2 hx)
        rw [← hretired, ih, hrecords, Turn.addedBefore, if_neg hx, List.append_assoc]

/-! ### Trees are made once -/

/-- The sources that some turns parse, in order. -/
def parsed : Desk σ α → List (Turn σ α) → List σ
  | _, [] => []
  | b, turn :: turns =>
      (if b.parses turn then [turn.act.source] else []) ++ parsed (b.after turn) turns

theorem parsed_append (more : List (Turn σ α)) :
    b.parsed (turns ++ more) = b.parsed turns ++ (b.afterAll turns).parsed more := by
  induction turns generalizing b with
  | nil => rfl
  | cons turn turns ih =>
      rw [List.cons_append, parsed, parsed, ih, List.append_assoc]
      rfl

/-- Those of some parsed sources whose trees give reason to warn, by name. -/
def warned (b : Desk σ α) (xs : List σ) : List String :=
  (xs.filter fun x => (b.sources x).tree.any Parsed.patched).map fun x => (b.sources x).name

/-- What holds between two turns, if `told` were the warnings at first and `xs` are the sources
parsed since. -/
structure Settled (told : List String) (xs : List σ) (b : Desk σ α) : Prop where
  nodup : xs.Nodup
  mem_iff : ∀ x, x ∈ xs ↔ (b.sources x).tree ≠ none
  warnings : b.history.log.warnings = told ++ b.warned xs

omit [DecidableEq σ] [DecidableEq α] in
theorem settled_start (paths : σ → Option Path) (texts : σ → Option String)
    (analyzers : α → Analyzer) (history : History) :
    (start paths texts analyzers history).Settled history.log.warnings [] := by
  refine ⟨List.nodup_nil, fun x => ?_, ?_⟩
  · simp [start]
  · simp [start, warned]

/-- A turn makes the tree of its source, or changes no tree. -/
theorem tree_after_eq : ((b.after turn).sources x).tree =
    if b.parses turn ∧ x = turn.act.source then some (turn.parse (b.sources x).code)
    else (b.sources x).tree := by
  rw [tree_after, parses_eq]
  cases htree : (b.sources x).tree with
  | some tree =>
      have hkept : ¬ ((turn.act.asks && (b.sources turn.act.source).isUnread) = true ∧
          x = turn.act.source) := by
        rintro ⟨hparses, rfl⟩
        simp [Source.isUnread, htree] at hparses
      rw [if_neg hkept, Option.some_or]
  | none =>
      rw [Option.none_or, Turn.tree?]
      by_cases hx : turn.act.source = x
      · subst hx
        simp [Source.isUnread, Source.isEmpty, htree, Source.code]
      · simp [hx, Ne.symm hx]

variable {b} {told : List String} {xs : List σ}

theorem Settled.warned_after (hb : b.Settled told xs) :
    (b.after turn).warned (xs ++ if b.parses turn then [turn.act.source] else []) = b.warned xs ++
      if b.parses turn ∧ (turn.parse (b.sources turn.act.source).code).patched then
        [(b.sources turn.act.source).name] else [] := by
  -- a source that was parsed has a tree, and keeps it
  have hold : ∀ x ∈ xs, ((b.after turn).sources x).tree = (b.sources x).tree := by
    intro x hx
    obtain ⟨tree, htree⟩ := Option.ne_none_iff_exists'.1 ((hb.mem_iff x).1 hx)
    rw [tree_after, htree, Option.some_or]
  have hnames : (fun x => ((b.after turn).sources x).name) = fun x => (b.sources x).name :=
    funext fun x => b.name_after turn x
  have hfilter : (xs.filter fun x => ((b.after turn).sources x).tree.any Parsed.patched) =
      xs.filter fun x => (b.sources x).tree.any Parsed.patched :=
    List.filter_congr fun x hx => by rw [hold x hx]
  rw [warned, warned, List.filter_append, hfilter, List.map_append, hnames]
  -- left is the source of this turn, if it is parsed
  congr 1
  by_cases hparses : b.parses turn = true
  · have htree := b.tree_after_eq turn turn.act.source
    rw [if_pos ⟨hparses, rfl⟩] at htree
    by_cases hpatched : (turn.parse (b.sources turn.act.source).code).patched = true <;>
      simp [hparses, htree, hpatched]
  · simp [hparses]

theorem Settled.after (hb : b.Settled told xs) :
    (b.after turn).Settled told (xs ++ if b.parses turn then [turn.act.source] else []) := by
  refine ⟨?_, fun x => ?_, ?_⟩
  · by_cases hparses : b.parses turn = true
    · -- the source of this turn has no tree yet
      have htree : (b.sources turn.act.source).tree = none := by
        simp only [parses, Bool.and_eq_true] at hparses
        exact Option.isNone_iff_eq_none.1 hparses.1
      have hnew : turn.act.source ∉ xs := fun hmem => (hb.mem_iff _).1 hmem htree
      rw [if_pos hparses]
      exact List.nodup_append.2 ⟨hb.nodup, List.nodup_singleton _, fun y hy z hz => by
        rw [List.mem_singleton.1 hz]
        exact fun heq => hnew (heq ▸ hy)⟩
    · rw [if_neg hparses, List.append_nil]
      exact hb.nodup
  · rw [tree_after_eq, List.mem_append, hb.mem_iff]
    by_cases hparses : b.parses turn = true
    · by_cases hx : x = turn.act.source <;> simp [hparses, hx]
    · simp [hparses]
  · rw [warnings_after, hb.warnings, hb.warned_after turn, List.append_assoc]

theorem Settled.afterAll (hb : b.Settled told xs) :
    (b.afterAll turns).Settled told (xs ++ b.parsed turns) := by
  induction turns generalizing b xs with
  | nil =>
      rw [parsed, List.append_nil]
      exact hb
  | cons turn turns ih =>
      have hrest := ih (hb.after turn)
      rwa [List.append_assoc] at hrest

/-! ### What a turn does after any others -/

variable (paths : σ → Option Path) (texts : σ → Option String) (analyzers : α → Analyzer)
  (history : History)

theorem code_afterAll_start :
    (((start paths texts analyzers history).afterAll turns).sources x).code =
      (Turn.textAfter x (texts x) turns).getD "" := by
  rw [Source.code, text_afterAll]
  rfl

theorem tree_afterAll_start :
    (((start paths texts analyzers history).afterAll turns).sources x).tree =
      Turn.firstTree? x (texts x) turns := by
  rw [tree_afterAll]
  exact Option.none_or

/-- **A source over any turns.** Take any new sources, any analyzers and any sequence of turns, of
which one is in the middle, with the source `x`. Then

* over all turns each source is parsed once at most, and the warnings are of those whose tree was
  patched up, in this order;
* the turn parses `x` exactly if it asks for the tree, there is a text, and no earlier turn has
  asked for the tree when there was one; otherwise it does the same with any other parser. It warns
  of `x` exactly if it parses it and the tree is patched up;
* the tree is absent exactly if the text is empty; otherwise it is the one that was made first;
* if the turn analyses `x`, it does what a new analyzer with the same weights does with that tree
  and an empty history. So the records are those of that run alone, without a tree there are none,
  and later on the list of them, which the turn hands out, gets what is added before the next
  analysis of `x`, and nothing else. Its scopes stay as they are. -/
theorem turns_of_source (earlier : List (Turn σ α)) (turn : Turn σ α) (later : List (Turn σ α)) :
    let first := start paths texts analyzers history
    let before := first.afterAll earlier
    let after := before.after turn
    let last := after.afterAll later
    let parsed := first.parsed (earlier ++ turn :: later)
    let x := turn.act.source
    let text := (Turn.textAfter x (texts x) earlier).getD ""
    let kept := Turn.firstTree? x (texts x) earlier
    let tree := if text = "" then none else kept.or (some (turn.parse text))
    let parses := turn.act.asks && text != "" && kept.isNone
    (parsed.Nodup ∧ last.history.log.warnings = history.log.warnings ++ last.warned parsed) ∧
    (first.parsed (earlier ++ [turn]) = first.parsed earlier ++ if parses then [x] else []) ∧
    (after.history.log.warnings = before.history.log.warnings ++
      if parses && (turn.parse text).patched then [(first.sources x).name] else []) ∧
    (parses = false → ∀ parse, before.after { turn with parse } = after) ∧
    ((before.sources x).ast turn.parse before.history).1 = tree ∧
    ∀ name, turn.act = .analyze x name →
      let result := (before.sources x).analyze turn.parse (before.analyzer name) before.history
      let alone := ({ weights := (first.analyzer name).weights } : Analyzer).analyze
        (tree.map fun parsed => Place.top parsed.root) Recorder.unlimited {}
      after.sources x = result.source ∧
      result.analysis.Repeats alone (before.afterAsking turn.parse x).history Recorder.unlimited ∧
      result.source.records = alone.recorder.records.map (before.history.scopes.size + ·) ∧
      (tree = none → result.source.records = []) ∧
      result.list = earlier.countP (Turn.analyses x) + 1 ∧
      (last.sources x).lists[result.list]? =
        some (result.source.records ++ Turn.addedBefore x later) ∧
      ∀ id < after.history.scopes.size,
        last.history.scopes.get? id = after.history.scopes.get? id := by
  intro first before after last parsed x text kept tree parses
  have hsettled : last.Settled history.log.warnings parsed := by
    have hstart := settled_start paths texts analyzers history
    have hall := hstart.afterAll (earlier ++ turn :: later)
    rwa [List.nil_append, afterAll, List.foldl_append] at hall
  have hcode : (before.sources x).code = text :=
    code_afterAll_start x earlier paths texts analyzers history
  have hkept : (before.sources x).tree = kept :=
    tree_afterAll_start x earlier paths texts analyzers history
  have hname : (before.sources x).name = (first.sources x).name := first.name_afterAll x earlier
  have htree : ((before.sources x).ast turn.parse before.history).1 = tree := by
    rw [Source.ast_fst, hcode, hkept]
  have hparses : before.parses turn = parses := by
    have hempty : (!(before.sources x).isEmpty) = (text != "") := by
      rw [← hcode]
      rfl
    rw [parses_eq]
    show (turn.act.asks && (before.sources x).isUnread) = (turn.act.asks && text != "" && _)
    rw [Source.isUnread, hempty, hkept, Bool.and_assoc]
  refine ⟨⟨hsettled.nodup, hsettled.warnings⟩, ?_, ?_, ?_, htree, ?_⟩
  · rw [parsed_append, ← hparses, Desk.parsed, Desk.parsed, List.append_nil]
  · rw [← hparses, ← hcode, ← hname]
    have hwarnings := before.warnings_after turn
    simpa using hwarnings
  · intro hnot parse
    exact before.after_congr turn (hparses.trans hnot) parse
  · intro name hact result alone
    have hsource : after.sources x = result.source := by
      show (before.after turn).sources x = _
      simp [Desk.after, hact, afterAnalysis, result]
    have hrun : result.analysis.Repeats alone (before.afterAsking turn.parse x).history
        Recorder.unlimited := by
      have hanalysis := Source.repeats_analyze turn.parse (before.analyzer name)
        (before.sources x) before.history
      rwa [htree, first.weights_afterAll earlier name] at hanalysis
    have hrecords : result.source.records =
        alone.recorder.records.map (before.history.scopes.size + ·) := by
      have hscopes : (before.afterAsking turn.parse x).history.scopes = before.history.scopes :=
        Source.ast_scopes ..
      rw [← hscopes]
      exact congrArg Recorder.records hrun.recorder
    have hlist : result.list = (after.sources x).retired.length := by
      rw [hsource]
      rfl
    refine ⟨hsource, hrun, hrecords, ?_, ?_, ?_, (after.keeps_afterAll later).same⟩
    · intro hnone
      have halone : alone.recorder.records = [] := by
        simp only [alone, hnone]
        rfl
      rw [hrecords, halone, List.map_nil]
    · -- the list of this analysis comes after the first one and those of the earlier analyses
      have hanalyses : turn.analyses x = true := by
        simp [Turn.analyses, hact, Act.analyses, Act.source]
      rw [hlist, retired_after, if_pos hanalyses, Source.lists, List.length_append,
        length_retired_afterAll]
      simp [first, start]
    · rw [hlist, ← hsource]
      exact after.lists_afterAll x later

/-- A source is given a text, parsed, given another text, analysed, given a record and analysed
again. Only the first text is parsed, with a warning; the second list of records has nothing of the
first one and gets the record that is added at the end. -/
theorem turns_of_sample :
    let parse : Parser := fun text =>
      if text = "a" then { root := sampleTree, patched := true } else default
    let act (a : Act Unit Unit) : Turn Unit Unit := { parse, act := a }
    let earlier := [act (.ast ()), act (.assign () (some "a")), act (.ast ()),
      act (.assign () (some "b")), act (.analyze () none), act (.add () 7)]
    let turn := act (.analyze () (some ()))
    let first := start (fun _ => none) (fun _ => none) (fun _ => {}) {}
    let last := ((first.afterAll earlier).after turn).afterAll [act (.add () 5)]
    turn.act = .analyze () (some ()) ∧
    first.parsed (earlier ++ turn :: [act (.add () 5)]) = [()] ∧
    last.history.log.warnings = ["<string>"] ∧
    (last.sources ()).lists[2]? = some [2, 3, 5] := by
  intro parse act earlier turn first last
  obtain ⟨⟨-, hwarnings⟩, -, -, -, -, hanalysis⟩ := turns_of_source (fun _ => none) (fun _ => none)
    (fun _ => {}) {} earlier turn [act (.add () 5)]
  obtain ⟨-, -, hrecords, -, hnumber, hlist, -⟩ := hanalysis (some ()) rfl
  rw [hnumber, hrecords] at hlist
  refine ⟨rfl, rfl, hwarnings.trans rfl, hlist.trans ?_⟩
  decide +kernel

end Desk

end ScopeScore
