import ScopeScore.Proofs.Analyzer.Outline
import ScopeScore.Proofs.Analyzer.Simulation
import ScopeScore.Proofs.Scope.Clues

set_option autoImplicit false

/-! # Texts matter for names only

A run looks at kinds, fields and rows, and never at a text. So it cannot fail because of one, and two
trees that differ in their texts only have the same records, up to the names. A text is read when a
name is asked for, and then only if the name depends on it.

* `Node.textless`: the tree without its texts.
* `Analyzer.figures_of_textless_eq`: trees that differ in their texts only are scored alike.
* `Store.Named`: how asking for a name ends, told from the texts that the clue of the scope gives.

**`Analyzer.texts_matter_for_names`** puts these together.
-/

namespace ScopeScore

open Spot

namespace Node

/-! ## Trees without texts -/

mutual

/-- The tree without its texts. -/
def textless : Node → Node
  | .node l cs => .node { l with text := none } (textlessAll cs)

/-- The forest without its texts. -/
def textlessAll : List Node → List Node
  | [] => []
  | c :: cs => c.textless :: textlessAll cs

end

theorem textlessAll_eq_map (cs : List Node) : textlessAll cs = cs.map textless := by
  induction cs with
  | nil => rfl
  | cons c cs ih => rw [textlessAll, List.map_cons, ih]

theorem label_textless (n : Node) : n.textless.label = { n.label with text := none } := by
  cases n with
  | node l cs => rfl

@[simp]
theorem kind_textless (n : Node) : n.textless.kind = n.kind := by
  rw [kind, kind, label_textless]

@[simp]
theorem line_textless (n : Node) : n.textless.line = n.line := by
  rw [line, line, label_textless]

@[simp]
theorem named_textless (n : Node) : n.textless.named = n.named := by
  rw [named, named, label_textless]

@[simp]
theorem isUnder_textless (f : String) (n : Node) : n.textless.isUnder f = n.isUnder f := by
  rw [isUnder, isUnder, label_textless]

theorem children_textless (n : Node) : n.textless.children = n.children.map textless := by
  cases n with
  | node l cs => exact textlessAll_eq_map cs

theorem namedChildren_textless (n : Node) :
    n.textless.namedChildren = n.namedChildren.map textless := by
  rw [namedChildren, children_textless, List.filter_map]
  have hsame : Node.named ∘ textless = Node.named := funext named_textless
  rw [hsame, namedChildren]

theorem child?_textless (n : Node) (f : String) :
    n.textless.child? f = (n.child? f).map textless := by
  rw [child?, children_textless, List.find?_map]
  have hsame : isUnder f ∘ textless = isUnder f := funext (isUnder_textless f)
  rw [hsame, child?]

/-- A node is charged for the same without the texts. -/
theorem penalties_textless (n : Node) : n.textless.penalties = n.penalties := by
  have hhas : ∀ f, n.textless.Has f ↔ n.Has f := by
    intro f
    rw [← isSome_child?_iff, ← isSome_child?_iff, child?_textless, Option.isSome_map]
  have hoperator : n.textless.operator? = n.operator? := by
    rw [operator?, operator?, child?_textless, Option.map_map]
    exact congrArg (Option.map · (n.child? "operator")) (funext kind_textless)
  rw [penalties_eq_tariff, penalties_eq_tariff]
  simp only [tariff, kind_textless, hhas, hoperator]

/-- Do two trees differ in their texts only? -/
def DiffersInTexts (n n' : Node) : Prop := n'.textless = n.textless

theorem scoredAlike_differsInTexts : ScoredAlike DiffersInTexts where
  kind {n n'} h := by
    rw [← kind_textless n', h, kind_textless]
  line {n n'} h := by
    rw [← line_textless n', h, line_textless]
  penalties {n n'} h := by
    rw [← penalties_textless n', h, penalties_textless]

theorem DiffersInTexts.of_map_eq {cs cs' : List Node}
    (h : cs'.map textless = cs.map textless) : List.Forall₂ DiffersInTexts cs cs' := by
  rw [← List.forall₂_eq_eq_eq, List.forall₂_map_left_iff, List.forall₂_map_right_iff] at h
  exact h.flip

theorem DiffersInTexts.namedChildren {n n' : Node} (h : n.DiffersInTexts n') :
    List.Forall₂ DiffersInTexts n.namedChildren n'.namedChildren := by
  apply of_map_eq
  rw [← namedChildren_textless, ← namedChildren_textless, h]

end Node

/-- The place without the texts of the tree. -/
def Place.textless (place : Place) : Place :=
  { node := place.node.textless, above := place.above.map Node.textless }

/-! ## Asking for a name -/

namespace Store

/-- How asking for the signature or for the record of a scope ends, told from its clue. -/
structure Named (s : Store) (id : ScopeId) (scope : Scope) : Prop where
  /-- The only fault of a signature is that of the first text of the clue that cannot be read. -/
  signature : ∀ e, s.signature id = .error e ↔
    ∃ fault, e = .undecodable fault ∧ Node.FirstUnreadable scope.clue.texts fault
  /-- A record has the fault of its signature. -/
  record : ∀ e, s.record id = .error e ↔
    ∃ fault, e = .undecodable fault ∧ Node.FirstUnreadable scope.clue.texts fault
  /-- There is a fault exactly if a text of the clue is no UTF-8. -/
  fails : (∃ e, s.signature id = .error e) ↔ ∃ c ∈ scope.clue.texts, c.IsUndecodable
  /-- Otherwise there is a name, and the record has it. -/
  succeeds : (∀ c ∈ scope.clue.texts, ¬ c.IsUndecodable) →
    ∃ name record, s.signature id = .ok name ∧ s.record id = .ok record ∧ record.signature = name
  /-- An identifier without a text gives the empty name, and no other is looked for. -/
  empty : ∀ c, scope.clue = .identifier c → c.text = none → s.signature id = .ok ""

variable {s : Store} {id : ScopeId} {scope : Scope}

theorem signature_eq_error_iff (hget : s.get? id = some scope) (e : Failure) :
    s.signature id = .error e ↔
      ∃ fault, e = .undecodable fault ∧ Node.FirstUnreadable scope.clue.texts fault := by
  simp only [← scope.asks_signature.error_iff, signature_of_get? hget]
  cases scope.signature with
  | ok name => simp [Node.Read.orFail]
  | error fault => simp [Node.Read.orFail, eq_comm]

/-- If a score can be told, the record has the fault of the signature, or none. -/
theorem record_of_score {score : Amount} (hscore : s.score id = .ok score) :
    s.record id = (s.signature id).map fun signature =>
      { score, signature, location := ((s.get? id).map Scope.location).getD 0 } := by
  rw [Store.record, hscore]
  cases s.signature id <;> rfl

theorem named_of_score (hget : s.get? id = some scope) {score : Amount}
    (hscore : s.score id = .ok score) : s.Named id scope := by
  have hsignature := signature_eq_error_iff hget
  have hfails : (∃ e, s.signature id = .error e) ↔ ∃ c ∈ scope.clue.texts, c.IsUndecodable := by
    rw [← Node.exists_firstUnreadable_iff]
    constructor
    · rintro ⟨e, he⟩
      obtain ⟨fault, -, hfault⟩ := (hsignature e).1 he
      exact ⟨fault, hfault⟩
    · rintro ⟨fault, hfault⟩
      exact ⟨.undecodable fault, (hsignature _).2 ⟨fault, rfl, hfault⟩⟩
  refine ⟨hsignature, ?_, hfails, ?_, ?_⟩
  · intro e
    rw [← hsignature, record_of_score hscore]
    cases s.signature id <;> simp [Except.map]
  · intro hall
    cases hname : s.signature id with
    | ok name =>
        have hrecord := record_of_score hscore
        rw [hname] at hrecord
        exact ⟨name, _, rfl, hrecord, rfl⟩
    | error e =>
        obtain ⟨c, hc, hbad⟩ := hfails.1 ⟨e, hname⟩
        exact absurd hbad (hall c hc)
  · intro c hclue htext
    have hread : scope.signature = .ok "" := by
      rw [Scope.signature_eq_read, hclue]
      exact Node.readText_of_text_eq_none htext
    rw [signature_of_get? hget, hread]
    rfl

end Store

/-! ## Runs -/

namespace Analyzer

/-- **Runs on trees that differ in their texts only score alike**, and fail alike. -/
theorem figures_of_textless_eq (a : Analyzer) {place place' : Place}
    (same : place'.textless = place.textless) (r : Recorder) (h : History) :
    let run := a.analyze (some place) r h
    let run' := a.analyze (some place') r h
    run'.failure = run.failure ∧ run'.recorder.records = run.recorder.records ∧
    ∃ positions : List Nat,
      run.recorder.records = r.records ++ positions.map (h.scopes.size + ·) ∧
      ∀ k ∈ positions, run.history.scopes.Figures Node.DiffersInTexts run'.history.scopes
        h.scopes.size h.scopes.size k := by
  intro run run'
  have hnode : place.node.DiffersInTexts place'.node := congrArg Place.node same
  have habove : List.Forall₂ Node.DiffersInTexts place.above place'.above :=
    Node.DiffersInTexts.of_map_eq (congrArg Place.above same)
  have hsim := Step.simulates_visit_of_children Node.scoredAlike_differsInTexts
    (fun h => h.namedChildren) a.weights habove place.node place'.node hnode .nil
  obtain ⟨hfailure, positions, hrecords, hrecords', hall⟩ :=
    figures_of_simulates Node.scoredAlike_differsInTexts rfl hsim rfl h h
  exact ⟨hfailure, hrecords'.trans hrecords.symm, positions, hrecords, fun k hk => (hall k hk).1⟩

/-- **Who can fail, and on what.** With integer weights and room in the recorder a run from any place
of any tree does not fail, whatever the texts are, and records all functions and programs.

* In a tree that differs in its texts only, the run makes the same records, with the same depths,
  locations, own penalties, children and scores. These scores can be told.
* The signature and the record of each can be told exactly if the texts that the clue of the scope
  gives are UTF-8, and otherwise they have the fault of the first text that is not. -/
theorem texts_matter_for_names (a : Analyzer) (place : Place) (r : Recorder) (h : History)
    {f : Category → Int} (ints : ∀ c, a.weights.get c = .int (f c))
    (room : r.HasRoom place.node.openings.length) :
    let run := a.analyze (some place) r h
    let made := List.range' h.scopes.size place.node.openings.length
    run.failure = none ∧ run.recorder.records = r.records ++ made ∧
    (∀ place' : Place, place'.textless = place.textless →
      let run' := a.analyze (some place') r h
      run'.failure = none ∧ run'.recorder.records = r.records ++ made ∧
      ∀ id ∈ made, ∃ scope scope',
        run.history.scopes.get? id = some scope ∧ run'.history.scopes.get? id = some scope' ∧
        scope'.depth = scope.depth ∧ scope'.location = scope.location ∧
        scope'.own = scope.own ∧ scope'.children = scope.children ∧
        run'.history.scopes.score id = run.history.scopes.score id) ∧
    ∀ id ∈ made, ∃ scope score, run.history.scopes.get? id = some scope ∧
      run.history.scopes.score id = .ok score ∧ run.history.scopes.Named id scope := by
  intro run made
  obtain ⟨s, hmirror, hrun⟩ := a.analyze_completes_of_ints place r h ints room
  have hfailure : run.failure = none := congrArg Analysis.failure hrun
  have hstore : run.history.scopes = s.scopes := congrArg (fun run => run.history.scopes) hrun
  have hmade : place.node.openings.map (number h.scopes.size place.node.openings) = made :=
    Node.map_number_openings ..
  have hrecords : run.recorder.records = r.records ++ made := by
    rw [← hmade]
    exact congrArg (fun run => run.recorder.records) hrun
  refine ⟨hfailure, hrecords, ?_, ?_⟩
  · intro place' same run'
    obtain ⟨hfailure', hrecords', positions, hpositions, hfigures⟩ :=
      a.figures_of_textless_eq same r h
    refine ⟨hfailure'.trans hfailure, hrecords'.trans hrecords, fun id hid => ?_⟩
    have hall : made = positions.map (h.scopes.size + ·) :=
      List.append_cancel_left (hrecords.symm.trans hpositions)
    obtain ⟨k, hk, rfl⟩ := List.mem_map.1 (hall ▸ hid)
    obtain ⟨⟨scope, scope', hget, hget', -, -, hdepth, hlocation, hown, children, hchildren,
      hchildren'⟩, hscore⟩ := hfigures k hk
    exact ⟨scope, scope', hget, hget', hdepth, hlocation, hown, hchildren'.trans hchildren.symm,
      hscore⟩
  · intro id hid
    obtain ⟨v, hv, rfl⟩ := List.mem_map.1 (hmade ▸ hid)
    obtain ⟨own, -, hget⟩ := hmirror.made v hv
    have hscore := hmirror.score_number ints hv
    rw [hstore]
    exact ⟨_, _, hget, hscore, Store.named_of_score hget hscore⟩

/-- A name, as a node. -/
def nameNode (field : String) (kind : Kind) (text : Option (List UInt8)) : Node :=
  Chain.held (some field) kind text []

/-- The path `a.b`, where `b` has no text and `a` has an octet behind it that makes it no UTF-8. -/
def illegiblePath : Node :=
  Chain.held (some "left") Kind.memberExpression none
    [nameNode "object" "identifier" (some [97, 255]),
      nameNode "property" "property_identifier" none]

/-- A program with a function whose name is no UTF-8, one that is assigned to the path above, and one
whose name has no text. -/
def illegibleTree : Node :=
  Chain.held none Kind.program none
    [Chain.held none "function_declaration" none [nameNode "name" "identifier" (some [255])],
      Chain.held none Kind.assignmentExpression none
        [illegiblePath, Chain.held (some "right") "function_expression" none []],
      Chain.held none "function_declaration" none [nameNode "name" "identifier" none]]

/-- What its scopes are called by. -/
def illegibleClues : List Clue :=
  [.program, .identifier (nameNode "name" "identifier" (some [255])), .members illegiblePath,
    .identifier (nameNode "name" "identifier" none)]

/-- Its run does not fail, and records what a run without the texts records. The names of the first
two functions cannot be read, that of the third is empty, and the program is called as ever. -/
theorem texts_illegibleTree :
    let run := ({} : Analyzer).analyze (some (Place.top illegibleTree)) Recorder.unlimited {}
    let run' := ({} : Analyzer).analyze (some (Place.top illegibleTree.textless))
      Recorder.unlimited {}
    run.failure = none ∧ run.recorder.records = [0, 1, 2, 3] ∧
    run'.recorder.records = [0, 1, 2, 3] ∧
    run'.history.scopes.score 0 = run.history.scopes.score 0 ∧
    (∃ name, run.history.scopes.signature 0 = .ok name) ∧
    (∃ e, run.history.scopes.signature 1 = .error e) ∧
    (∃ e, run.history.scopes.record 2 = .error e) ∧ run.history.scopes.signature 3 = .ok "" := by
  intro run run'
  obtain ⟨hfailure, hrecords, hsame, hnames⟩ := texts_matter_for_names {}
    (Place.top illegibleTree) Recorder.unlimited {} Weights.get_default_int
    (Recorder.hasRoom_unlimited _)
  have hfour : (Place.top illegibleTree).node.openings.length = 4 := by decide +kernel
  rw [hfour] at hrecords hsame hnames
  obtain ⟨-, hrecords', hfigures⟩ := hsame (Place.top illegibleTree.textless) rfl
  have hscore : run'.history.scopes.score 0 = run.history.scopes.score 0 := by
    obtain ⟨-, -, -, -, -, -, -, -, hscore⟩ := hfigures 0 (by decide)
    exact hscore
  have hclues : ∀ id ∈ List.range' 0 4, ∀ clue, illegibleClues[id]? = some clue →
      ∃ scope, scope.clue = clue ∧ run.history.scopes.Named id scope := by
    intro id hid clue hclue
    obtain ⟨scope, score, hget, -, hnamed⟩ := hnames id hid
    have hall : ∀ id ∈ List.range' 0 4,
        (run.history.scopes.get? id).map Scope.clue = illegibleClues[id]? := by decide +kernel
    have hscope := hall id hid
    rw [hget, hclue] at hscope
    exact ⟨scope, Option.some.inj hscope, hnamed⟩
  obtain ⟨program, hprogram, hnamed₀⟩ := hclues 0 (by decide) _ rfl
  obtain ⟨first, hfirst, hnamed₁⟩ := hclues 1 (by decide) _ rfl
  obtain ⟨second, hsecond, hnamed₂⟩ := hclues 2 (by decide) _ rfl
  obtain ⟨third, hthird, hnamed₃⟩ := hclues 3 (by decide) _ rfl
  refine ⟨hfailure, hrecords, hrecords', hscore, ?_, ?_, ?_, ?_⟩
  · obtain ⟨name, -, hname, -⟩ := hnamed₀.succeeds (by simp [hprogram, Clue.texts])
    exact ⟨name, hname⟩
  · apply hnamed₁.fails.2
    rw [hfirst]
    exact ⟨_, List.mem_singleton_self _, Node.exists_readText_eq_error_iff.1 ⟨_, rfl⟩⟩
  · obtain ⟨e, he⟩ := hnamed₂.fails.2 (by
      rw [hsecond]
      exact ⟨nameNode "object" "identifier" (some [97, 255]), by decide +kernel,
        Node.exists_readText_eq_error_iff.1 ⟨_, rfl⟩⟩)
    exact ⟨e, (hnamed₂.record e).2 ((hnamed₂.signature e).1 he)⟩
  · exact hnamed₃.empty _ hthird rfl

end Analyzer

end ScopeScore
