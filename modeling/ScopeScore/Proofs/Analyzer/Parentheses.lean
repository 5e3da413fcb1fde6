import ScopeScore.Proofs.Analyzer.Outline
import ScopeScore.Proofs.Analyzer.Simulation
import ScopeScore.Proofs.Tree.Parentheses

set_option autoImplicit false

/-! # Parentheses change nothing

A walk passes over parentheses: it charges nothing for them, opens no scope, and looks past them for
the node that names a function. So a tree in which some functions are in parentheses is scored as the
tree without.

* `Accompanies ρ outer outer' path path'` is what holds between the ways that two walks have come
  down, the one through parentheses and the other not. It says what `Meets` asks for.
* `Step.simulates_visit`: the walks do the same, by recursion on the tree without parentheses.

**`Analyzer.parentheses_transparent`** compares the two runs record by record.
-/

namespace ScopeScore

open Node (Wraps Replaces)

/-! ## Parentheses in a walk -/

/-- Two walks, begun below `outer` and `outer'`, came down these paths. Either both are at their
start or neither is, and they have the same node around them. -/
structure Accompanies (ρ : Nat → Nat) (outer outer' path path' : List Node) : Prop where
  start : path' = [] ↔ path = []
  around : SurroundedAlike ρ (path ++ outer) (path' ++ outer')

namespace Accompanies

variable {ρ : Nat → Nat} {outer outer' path path' : List Node}

theorem down (h : Accompanies ρ outer outer' path path') {n n' : Node} (hn : Wraps ρ n n') :
    Accompanies ρ outer outer' (n :: path) (n' :: path') :=
  ⟨by simp, h.around.cons hn⟩

/-- Below its start, a walk may go through parentheses that the other does not have. -/
theorem parens (h : Accompanies ρ outer outer' path path') (hpath : path ≠ []) (n : Node)
    (ps : List Parens) : Accompanies ρ outer outer' path (n.parensAround ps ++ path') := by
  refine ⟨?_, ?_⟩
  · have hpath' : path' ≠ [] := fun e => hpath (h.start.1 e)
    simp [hpath, hpath']
  · rw [List.append_assoc]
    exact h.around.parens n ps

/-- Functions that the walks meet there are named by the same node. -/
theorem meets (h : Accompanies ρ outer outer' path path') {n n' : Node} (hn : Wraps ρ n n') :
    Step.Meets (Wraps ρ) outer outer' { node := n, path := path } { node := n', path := path' } := by
  refine ⟨hn, ?_⟩
  cases path with
  | nil =>
      obtain rfl := h.start.2 rfl
      exact .none
  | cons p ps =>
      cases path' with
      | nil => cases h.start.1 rfl
      | cons p' ps' => exact h.around

end Accompanies

namespace Step

theorem passesParens_enter (w : Weights) (outer : List Node) : PassesParens (enter w outer) := by
  intro v hv
  have hcharge : v.node.charge w = [] := by
    rw [Node.charge_eq_tariff, Node.tariff, hv]
    rfl
  have hscope : v.node.kind.isScope = false := by
    rw [hv]
    decide
  rw [enter, hcharge, hscope]
  rfl

theorem passesParens_leaveByKind : PassesParens leaveByKind := by
  intro v hv
  have hscope : v.node.kind.isScope = false := by
    rw [hv]
    decide
  rw [leaveByKind, hscope]
  rfl

mutual

/-- **A walk through parentheses simulates the walk without.** The recursion is on the tree without
parentheses, since the other one may be deeper. -/
theorem simulates_visit (ρ : Nat → Nat) (w : Weights) {outer outer' path path' : List Node} :
    ∀ n n' : Node, Wraps ρ n n' → Accompanies ρ outer outer' path path' →
      Simulates (Wraps ρ) (visit (enter w outer) leaveByKind path n)
        (visit (enter w outer') leaveByKind path' n')
  | .node l cs, n', hn, hpath => by
      rw [visit_eq, visit_eq]
      refine simulates_bind ?_ (simulates_bind ?_ ?_)
      · exact simulates_enter (Node.likeness_wraps ρ).scoredAlike w (hpath.meets hn)
      · exact simulates_visitAll ρ w cs n'.children hn.children (hpath.down hn)
          (List.cons_ne_nil _ _)
      · exact simulates_leaveByKind hn.kind_eq

theorem simulates_visitAll (ρ : Nat → Nat) (w : Weights) {outer outer' path path' : List Node} :
    ∀ cs cs' : List Node, List.Forall₂ (Replaces ρ) cs cs' →
      Accompanies ρ outer outer' path path' → path ≠ [] →
      Simulates (Wraps ρ) (visitAll (enter w outer) leaveByKind path cs)
        (visitAll (enter w outer') leaveByKind path' cs')
  | [], _, .nil, _, _ => by
      rw [visitAll, visitAll]
      exact simulates_pure
  | c :: cs, _, .cons hc hcs, hpath, hne => by
      have hrest := simulates_visitAll ρ w cs _ hcs hpath hne
      rw [visitAll, visitAll]
      cases hc with
      | kept tree field =>
          rw [tree.named_eq]
          cases c.named with
          | false => exact hrest
          | true => exact simulates_bind (simulates_visit ρ w c _ tree hpath) hrest
      | @wrapped _ c' ps function named tree bare pairs field =>
          -- the other walk comes to the function through the parentheses, which are then above it
          have hnamed : c'.named = true := tree.named_eq.trans named
          rw [if_pos named, if_pos (Node.named_inParens ps hnamed),
            visit_inParens (passesParens_enter w outer') passesParens_leaveByKind ps hnamed]
          exact simulates_bind (simulates_visit ρ w c c' tree (hpath.parens hne c' ps)) hrest

end

end Step

namespace Analyzer

/-- **Parentheses are transparent.** Let some functions of a tree be put in parentheses, and let two
runs start at the same node of both trees, with the same weights and the same room left in their
recorders. Whatever went before, they fail for the same cause or not at all, and their records are
the same up to the numbers of the nodes: they have the same signatures or faults in them, the same
locations, depths, own penalties and scores, and their children are at the same positions. With
integer weights and room in the recorders neither run fails, and the records are those of all
functions and programs. -/
theorem parentheses_transparent {ρ : Nat → Nat} {place place' : Place}
    (wraps : place.Wraps ρ place') (a a' : Analyzer) (same : a'.weights = a.weights)
    (r r' : Recorder) (room : r'.remaining = r.remaining) (h h' : History) :
    let run := a.analyze (some place) r h
    let run' := a'.analyze (some place') r' h'
    run'.failure = run.failure ∧
    ∃ positions : List Nat,
      run.recorder.records = r.records ++ positions.map (h.scopes.size + ·) ∧
      run'.recorder.records = r'.records ++ positions.map (h'.scopes.size + ·) ∧
      (∀ k ∈ positions, run.history.scopes.Twins (Wraps ρ) run'.history.scopes
        h.scopes.size h'.scopes.size k) ∧
      ∀ f : Category → Int, (∀ c, a.weights.get c = .int (f c)) →
        r.HasRoom place.node.openings.length →
        run.failure = none ∧ positions = List.range place.node.openings.length := by
  intro run run'
  have hstart : Accompanies ρ place.above place'.above [] [] := ⟨Iff.rfl, wraps.above⟩
  have hsim := Step.simulates_visit ρ a.weights place.node place'.node wraps.node hstart
  obtain ⟨hfailure, positions, hrecords, hrecords', htwins⟩ :=
    twins_of_simulates (Node.likeness_wraps ρ) same hsim room h h'
  refine ⟨hfailure, positions, hrecords, hrecords', htwins, ?_⟩
  intro f ints hroom
  obtain ⟨s, -, hrun⟩ := a.analyze_completes_of_ints place r h ints hroom
  exact ⟨congrArg Analysis.failure hrun, a.positions_eq_range place r h ints hroom hrecords⟩

/-- The nested tree with its function in two pairs of parentheses. -/
def parenthesizedTree : Node :=
  let node (id : Nat) (kind : Kind) (field : Option String) (text : Option (List UInt8))
      (children : List Node) : Node :=
    .node { id, kind, named := true, field, row := 0, text } children
  let pair (id : Nat) (field : Option String) : Parens :=
    { label := { id, kind := "parenthesized_expression", named := true, field, row := 0
                 text := none }
      kind := rfl
      named := rfl
      tokens := by simp }
  node 0 "program" none none
    [node 1 "call_expression" none none [],
      node 2 "method_definition" none none
        [node 3 "variable_declarator" none none
          [node 4 "identifier" (some "name") (some [103]) [],
            (node 7 "function_expression" none none
              [node 8 "call_expression" none none []]).inParens [pair 6 none, pair 5 (some "value")]]]]

/-- The nested tree and its method, without and with parentheses. The nodes after the function have
moved up by two. -/
theorem wraps_parenthesizedTree :
    ∃ method method', nestedTree.children[1]? = some method ∧
      parenthesizedTree.children[1]? = some method' ∧
      method.Wraps (fun i => if i < 5 then i else i + 2) method' ∧
      nestedTree.Wraps (fun i => if i < 5 then i else i + 2) parenthesizedTree := by
  have hlabel : ∀ {i : Nat} {k : Kind} {f f' : Option String} {text : Option (List UInt8)},
      Label.Renumbers (fun i => if i < 5 then i else i + 2)
        { id := i, kind := k, named := true, field := f, row := 0, text := text }
        { id := if i < 5 then i else i + 2, kind := k, named := true, field := f', row := 0
          text := text } := ⟨rfl, rfl, rfl, rfl, rfl⟩
  have hmethod : ∀ method method', nestedTree.children[1]? = some method →
      parenthesizedTree.children[1]? = some method' →
      method.Wraps (fun i => if i < 5 then i else i + 2) method' := by
    rintro _ _ ⟨⟩ ⟨⟩
    refine .node hlabel (.cons (.kept ?_ rfl) .nil)
    refine .node hlabel (.cons (.kept (.node hlabel .nil) rfl) (.cons ?_ .nil))
    refine .wrapped rfl rfl ?_ rfl (List.cons_ne_nil _ _) rfl
    exact .node hlabel (.cons (.kept (.node hlabel .nil) rfl) .nil)
  refine ⟨_, _, rfl, rfl, hmethod _ _ rfl rfl, ?_⟩
  exact .node hlabel (.cons (.kept (.node hlabel .nil) rfl)
    (.cons (.kept (hmethod _ _ rfl rfl) rfl) .nil))

/-- A run that starts at the method of the nested tree finds the function in parentheses under the
name that the variable gives it, with the score that it has without. -/
theorem parentheses_nestedTree :
    ∃ method method', nestedTree.children[1]? = some method ∧
      parenthesizedTree.children[1]? = some method' ∧
      let run := ({} : Analyzer).analyze (some { node := method, above := [nestedTree] })
        Recorder.unlimited {}
      let run' := ({} : Analyzer).analyze (some { node := method', above := [parenthesizedTree] })
        Recorder.unlimited {}
      run'.failure = none ∧ run'.recorder.records = [0, 1] ∧
      run'.history.scopes.signature 1 = .ok "g" ∧
      run'.history.scopes.score 1 = run.history.scopes.score 1 := by
  obtain ⟨method, method', hmethod, hmethod', htree, hroot⟩ := wraps_parenthesizedTree
  have hwraps : Place.Wraps _ { node := method, above := [nestedTree] }
      { node := method', above := [parenthesizedTree] } :=
    @Place.Wraps.within _ _ _ _ _ 1 [] (.top hroot) hmethod hmethod' htree
  obtain ⟨hfailure, positions, -, hrecords, htwins, hdone⟩ :=
    parentheses_transparent hwraps {} {} rfl Recorder.unlimited Recorder.unlimited rfl {} {}
  obtain ⟨hcompleted, rfl⟩ := hdone _ Weights.get_default_int (Recorder.hasRoom_unlimited _)
  obtain ⟨-, -, hshows⟩ := ({} : Analyzer).analyze_shows
    { node := method, above := [nestedTree] } Recorder.unlimited {} Weights.get_default_int
    (Recorder.hasRoom_unlimited _)
  obtain rfl := Option.some.inj hmethod
  refine ⟨_, method', rfl, hmethod', hfailure.trans hcompleted, hrecords, ?_, ?_⟩
  · exact (htwins 1 (by decide)).signature.trans (hshows 1 _ rfl).signature
  · exact (htwins 1 (by decide)).score

end Analyzer

end ScopeScore
