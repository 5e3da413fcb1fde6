import ScopeScore.Proofs.Analyzer.Outline
import ScopeScore.Proofs.Analyzer.Simulation
import ScopeScore.Proofs.Tree.Tokens

set_option autoImplicit false

/-! # Tokens change nothing

A walk goes from named child to named child, and what it charges and how it names scopes it reads
from fields. So a keyword opens no scope and costs nothing even if it has the kind of a function,
and a tree is scored as the tree without the tokens that nothing refers to.

* `Step.simulates_visit_trimmed`: both walks do the same, since the tree without the tokens has the
  same named children.

**`Analyzer.tokens_do_not_matter`** compares the two runs record by record.
-/

namespace ScopeScore

open Spot
open Node (Trims)

/-- **A walk without the tokens simulates the walk with them.** -/
theorem Step.simulates_visit_trimmed {ρ : Nat → Nat} (w : Weights) {outer outer' : List Node}
    (houter : List.Forall₂ (Trims ρ) outer outer') {path path' : List Node} (n n' : Node)
    (hn : Trims ρ n n') (hpath : List.Forall₂ (Trims ρ) path path') :
    Simulates (Trims ρ) (visit (enter w outer) leaveByKind path n)
      (visit (enter w outer') leaveByKind path' n') :=
  simulates_visit_of_children (Node.likeness_trims ρ).scoredAlike (fun h => h.namedChildren) w houter
    n n' hn hpath

namespace Analyzer

/-- **Only named nodes and fields matter.** Let some tokens be dropped from a tree that are in no
field, each with all that is in it, and let two runs start at the same node of both trees, with the
same weights and the same room left in their recorders. Whatever went before, they fail for the same
cause or not at all, and their records are the same up to the numbers of the nodes: they have the
same signatures or faults in them, the same locations, depths, own penalties and scores, and their
children are at the same positions. With integer weights and room in the recorders neither run
fails, and the records are those of all functions and programs.

No token opens a scope or adds a penalty, whatever its kind: the nodes of the records, and those
whose charges make up the own penalties, are named, but for the node where the run starts. -/
theorem tokens_do_not_matter {ρ : Nat → Nat} {place place' : Place} (trims : place.Trims ρ place')
    (a a' : Analyzer) (same : a'.weights = a.weights) (r r' : Recorder)
    (room : r'.remaining = r.remaining) (h h' : History) :
    let run := a.analyze (some place) r h
    let run' := a'.analyze (some place') r' h'
    run'.failure = run.failure ∧
    ∃ positions : List Nat,
      run.recorder.records = r.records ++ positions.map (h.scopes.size + ·) ∧
      run'.recorder.records = r'.records ++ positions.map (h'.scopes.size + ·) ∧
      (∀ k ∈ positions, run.history.scopes.Twins (Trims ρ) run'.history.scopes
        h.scopes.size h'.scopes.size k) ∧
      ∀ f : Category → Int, (∀ c, a.weights.get c = .int (f c)) →
        r.HasRoom place.node.openings.length →
        run.failure = none ∧ positions = List.range place.node.openings.length ∧
        (∀ t ∈ place.node.walked, t = .start place.node ∨ t.node.named = true) ∧
        ∀ v ∈ place.node.openings, v ∈ place.node.walked ∧
          ∃ scope,
            run.history.scopes.get? (number h.scopes.size place.node.openings v) = some scope ∧
            scope.node = v.node ∧
            Amount.total (charges a.weights (fallingInto v place.node.walked)) =
              .ok scope.own := by
  intro run run'
  have hstart : List.Forall₂ (Trims ρ) [] [] := .nil
  have hsim := Step.simulates_visit_trimmed a.weights trims.above place.node place'.node trims.node
    hstart
  obtain ⟨hfailure, positions, hrecords, hrecords', htwins⟩ :=
    twins_of_simulates (Node.likeness_trims ρ) same hsim room h h'
  refine ⟨hfailure, positions, hrecords, hrecords', htwins, ?_⟩
  intro f ints hroom
  obtain ⟨s, hmirror, hrun⟩ := a.analyze_completes_of_ints place r h ints hroom
  refine ⟨congrArg Analysis.failure hrun, a.positions_eq_range place r h ints hroom hrecords,
    fun t ht => Node.named_of_mem_walked ht, ?_⟩
  intro v hv
  obtain ⟨own, htotal, hget⟩ := hmirror.made v hv
  have hscopes : run.history.scopes = s.scopes :=
    congrArg (fun run => run.history.scopes) hrun
  rw [← hscopes] at hget
  exact ⟨Node.mem_walked_of_mem_openings hv, _, hget, rfl, htotal⟩

/-- A program with a function in it. A keyword of the kind of a function stands before its name, and
another one, with a call in it, beside the function. -/
def keywordTree : Node :=
  let node (id : Nat) (kind : Kind) (named : Bool) (field : Option String)
      (text : Option (List UInt8)) (children : List Node) : Node :=
    .node { id, kind, named, field, row := 0, text } children
  node 0 "program" true none none
    [node 1 "function" false none none [node 2 "call_expression" true none none []],
      node 3 "function_declaration" true none none
        [node 4 "function" false none none [],
          node 5 "identifier" true (some "name") (some [102]) [],
          node 6 "call_expression" true none none []]]

/-- The same program without the keywords. -/
def wordlessTree : Node :=
  let node (id : Nat) (kind : Kind) (field : Option String) (text : Option (List UInt8))
      (children : List Node) : Node :=
    .node { id, kind, named := true, field, row := 0, text } children
  node 0 "program" none none
    [node 1 "function_declaration" none none
      [node 2 "identifier" (some "name") (some [102]) [],
        node 3 "call_expression" none none []]]

/-- The nodes 0, 3, 5 and 6 of the one tree are the nodes 0, 1, 2 and 3 of the other. -/
theorem trims_wordlessTree : keywordTree.Trims (· / 2) wordlessTree := by
  refine .node (.drop rfl (.keep (.node (.drop rfl ?_)) .nil))
  exact .keep (.node .nil) (.keep (.node .nil) .nil)

/-- The keywords open no scope, and neither they nor the call in one of them cost anything: there
are two records, and the program itself is charged for one function. -/
theorem tokens_keywordTree :
    let run := ({} : Analyzer).analyze (some (Place.top keywordTree)) Recorder.unlimited {}
    let run' := ({} : Analyzer).analyze (some (Place.top wordlessTree)) Recorder.unlimited {}
    run.failure = none ∧ run.recorder.records = [0, 1] ∧ run'.recorder.records = [0, 1] ∧
    run'.history.scopes.signature 1 = run.history.scopes.signature 1 ∧
    ∃ scope, run.history.scopes.get? 0 = some scope ∧ scope.own = .int 3 := by
  obtain ⟨-, positions, hrecords, hrecords', htwins, hdone⟩ :=
    tokens_do_not_matter (.top trims_wordlessTree) {} {} rfl Recorder.unlimited
      Recorder.unlimited rfl {} {}
  obtain ⟨hfailure, rfl, -, hscopes⟩ := hdone _ Weights.get_default_int
    (Recorder.hasRoom_unlimited _)
  obtain ⟨-, scope, hget, -, htotal⟩ := hscopes (.start keywordTree) (by decide)
  have hsum : Amount.total (charges Weights.default
      (fallingInto (.start keywordTree) keywordTree.walked)) = .ok (.int 3) := rfl
  refine ⟨hfailure, hrecords, hrecords', (htwins 1 (by decide)).signature, scope, hget, ?_⟩
  exact Except.ok.inj (htotal.symm.trans hsum)

end Analyzer

end ScopeScore
