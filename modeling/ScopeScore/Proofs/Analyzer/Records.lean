import ScopeScore.Proofs.Analyzer.Run
import ScopeScore.Scope.Record

set_option autoImplicit false

/-! # Records and lexical nesting

The records of a run are the scopes that it opened, in the order in which it opened them. This
module says what each of them holds, in terms of the tree alone:

* **`Analyzer.own_eq_total_fallingInto`**: its own penalty is the sum of the charges of the nodes
  that fall into it, where a node falls into the nearest scope properly around it;
* **`Analyzer.records_mirror_nesting`**: its depth and its children are those of the nesting of the
  scopes in the tree.
-/

namespace ScopeScore

open Spot Call

/-- A program with a function in it that branches and calls, and with a call beside the function. -/
def sampleTree : Node :=
  let node (id : Nat) (kind : Kind) (field : Option String) (children : List Node) : Node :=
    .node { id, kind, named := true, field, row := 0, text := none } children
  node 0 "program" none
    [node 1 "function_declaration" none
      [node 2 "if_statement" none
        [node 3 "call_expression" none [], node 4 "else_clause" (some "alternative") []]],
      node 5 "call_expression" none []]

/-! ## Where charges go -/

namespace Analyzer

/-- **Routing of charges.** Suppose that the recorder has room for all scopes and that the charges
which fall into each scope have a sum. Then the run does not fail, its records are the scopes of the
tree, and the own penalty of each is the sum, from the integer zero and in the order of the walk, of
the charges of exactly those nodes whose nearest scope properly above them it is. So a function is
never charged to itself. -/
theorem own_eq_total_fallingInto (a : Analyzer) (place : Place) (r : Recorder) (h : History)
    (room : r.HasRoom place.node.openings.length)
    (sums : ∀ v ∈ place.node.openings,
      ∃ sum, Amount.total (charges a.weights (fallingInto v place.node.walked)) = .ok sum) :
    (a.analyze (some place) r h).failure = none ∧
    (a.analyze (some place) r h).recorder.records =
      r.records ++ place.node.openings.map (number h.scopes.size place.node.openings) ∧
    ∀ v ∈ place.node.openings,
      v ∉ fallingInto v place.node.walked ∧
      ∃ scope,
        (a.analyze (some place) r h).history.scopes.get?
          (number h.scopes.size place.node.openings v) = some scope ∧
        scope.node = v.node ∧
        Amount.total (charges a.weights (fallingInto v place.node.walked)) = .ok scope.own := by
  obtain ⟨s, hmirror, hrun⟩ := a.analyze_completes place r h room sums
  rw [hrun]
  refine ⟨rfl, rfl, ?_⟩
  intro v hv
  obtain ⟨own, htotal, hget⟩ := hmirror.made v hv
  refine ⟨?_, _, hget, rfl, htotal⟩
  -- what falls into a scope is below it
  intro hself
  exact not_mem_above_self v (mem_above_of_enclosing? (mem_fallingInto.1 hself).2)

/-- In the sample the function's weight and that of the call beside it go to the program. -/
theorem own_sampleTree :
    ∃ scope,
      (({} : Analyzer).analyze (some (Place.top sampleTree)) Recorder.unlimited
        {}).history.scopes.get? 0 = some scope ∧
      scope.own = .int (3 + 1) := by
  obtain ⟨-, -, hall⟩ := own_eq_total_fallingInto {} (Place.top sampleTree) Recorder.unlimited {}
    (Recorder.hasRoom_unlimited _) fun v _ => ⟨_, total_charges_of_ints Weights.get_default_int _⟩
  obtain ⟨-, scope, hget, -, htotal⟩ := hall (.start sampleTree) (by decide)
  have hsum : Amount.total (charges Weights.default
      (fallingInto (.start sampleTree) sampleTree.walked)) = .ok (.int (3 + 1)) := rfl
  exact ⟨scope, hget, Except.ok.inj (htotal.symm.trans hsum)⟩

end Analyzer

/-! ## How scopes are nested -/

namespace Node

theorem openings_nodup (n : Node) : n.openings.Nodup := (walked_nodup n).filter _

/-- The scope into which a spot falls is one of the walk. -/
theorem mem_openings_of_enclosing? {n : Node} {t v : Spot} (ht : t ∈ n.walked)
    (hv : t.enclosing? = some v) : v ∈ n.openings :=
  mem_scopesAmong.2
    ⟨mem_walked_of_mem_above ht (mem_above_of_enclosing? hv), isScope_of_enclosing? hv⟩

theorem mem_walked_of_mem_openings {n : Node} {v : Spot} (hv : v ∈ n.openings) : v ∈ n.walked :=
  (mem_scopesAmong.1 hv).1

/-- A walk begins with the node where it starts. -/
theorem walked_eq_cons (n : Node) : ∃ rest, n.walked = .start n :: rest := by
  cases n with
  | node l cs => exact ⟨_, rfl⟩

theorem openings_eq_cons {n : Node} (hn : n.kind.isScope = true) :
    ∃ rest, n.openings = .start n :: rest := by
  obtain ⟨rest, hrest⟩ := walked_eq_cons n
  refine ⟨scopesAmong rest, ?_⟩
  rw [openings, hrest]
  exact List.filter_cons_of_pos hn

/-- If the walk starts at a scope, that scope gets the first number. -/
theorem number_start {n : Node} (hn : n.kind.isScope = true) (base : ScopeId) :
    number base n.openings (.start n) = base := by
  obtain ⟨rest, hrest⟩ := openings_eq_cons hn
  rw [number, hrest, List.idxOf_cons_self, Nat.add_zero]

theorem head?_map_number {n : Node} (hn : n.kind.isScope = true) (base : ScopeId) :
    (n.openings.map (number base n.openings)).head? = some base := by
  obtain ⟨rest, hrest⟩ := openings_eq_cons hn
  rw [List.head?_map]
  nth_rewrite 2 [hrest]
  rw [List.head?_cons, Option.map_some, number_start hn]

/-- If the walk starts at a scope, that scope is around all others. -/
theorem depth_eq_zero_iff_eq_start {n : Node} {v : Spot} (hn : n.kind.isScope = true)
    (hv : v ∈ n.walked) : v.depth = 0 ↔ v = .start n := by
  constructor
  · intro hdepth
    rcases (mem_upward _ v).1 (mem_upward_of_mem_spotsFrom n hv) with h | h
    · exact h.symm
    · have := depth_lt_of_mem_above h hn
      omega
  · rintro rfl
    rfl

end Node

namespace Store

/-- The children of the scope of this number. -/
def childrenOf (s : Store) (id : ScopeId) : List ScopeId := ((s.get? id).map Scope.children).getD []

/-- The scopes of the store from number `base` on are nested like the scopes of the tree `n`. -/
structure NestsLike (s : Store) (base : ScopeId) (n : Node) : Prop where
  /-- The depth of a scope counts the scopes properly around it, and its children are, in order and
  without repetition, those whose nearest scope it is. -/
  scope : ∀ v ∈ n.openings, ∃ scope, s.get? (number base n.openings v) = some scope ∧
    scope.node = v.node ∧ scope.depth = v.depth ∧
    scope.children = (fallingInto v n.openings).map (number base n.openings) ∧
    scope.children.Nodup
  /-- A scope of depth 0 is a child of none. -/
  outermost : ∀ v ∈ n.openings, v.depth = 0 → ∀ u ∈ n.openings,
    number base n.openings v ∉ s.childrenOf (number base n.openings u)
  /-- Any other scope is a child of exactly one. -/
  inner : ∀ v ∈ n.openings, v.depth ≠ 0 → ∃! u, u ∈ n.openings ∧
    number base n.openings v ∈ s.childrenOf (number base n.openings u)
  /-- If the walk starts at a scope, this is the first, and the only one of depth 0. -/
  start : n.kind.isScope = true →
    (n.openings.map (number base n.openings)).head? = some base ∧
    ∀ v ∈ n.openings, v.depth = 0 ↔ number base n.openings v = base

end Store

theorem Spot.map_number_nodup {base : ScopeId} {ss us : List Spot} (hu : ∀ u ∈ us, u ∈ ss)
    (hd : us.Nodup) : (us.map (number base ss)).Nodup :=
  hd.map_on fun x hx _ _ hxy => number_inj (hu x hx) hxy

namespace Session.Mirrors

variable {w : Weights} {outer : List Node} {old : Store} {n : Node} {s : Session}

theorem childrenOf_number {es ss : List Spot} {cur : Option Spot} {v : Spot}
    (h : Mirrors w outer old es ss cur s) (hv : v ∈ ss) :
    s.scopes.childrenOf (number old.size ss v) =
      (fallingInto v ss).map (number old.size ss) := by
  obtain ⟨own, -, hget⟩ := h.made v hv
  rw [Store.childrenOf, hget]
  rfl

/-- A scope is a child of the one into which its spot falls, and of no other. -/
theorem mem_childrenOf_iff {u v : Spot} (h : Mirrors w outer old n.walked n.openings none s)
    (hu : u ∈ n.openings) (hv : v ∈ n.openings) :
    number old.size n.openings v ∈ s.scopes.childrenOf (number old.size n.openings u) ↔
      v.enclosing? = some u := by
  rw [h.childrenOf_number hu, List.mem_map]
  constructor
  · rintro ⟨x, hx, hxv⟩
    obtain ⟨hmem, henc⟩ := mem_fallingInto.1 hx
    rwa [number_inj hmem hxv] at henc
  · intro henc
    exact ⟨v, mem_fallingInto.2 ⟨hv, henc⟩, rfl⟩

theorem nestsLike (h : Mirrors w outer old n.walked n.openings none s) :
    s.scopes.NestsLike old.size n := by
  have hwalked : ∀ v ∈ n.openings, v ∈ n.walked := fun v hv => Node.mem_walked_of_mem_openings hv
  refine ⟨?_, ?_, ?_, ?_⟩
  · intro v hv
    obtain ⟨own, -, hget⟩ := h.made v hv
    refine ⟨_, hget, rfl, rfl, rfl, ?_⟩
    exact map_number_nodup (fun u hu => (mem_fallingInto.1 hu).1) (n.openings_nodup.filter _)
  · intro v hv hdepth u hu hchild
    have henc := (h.mem_childrenOf_iff hu hv).1 hchild
    rw [depth_eq_zero_iff.1 hdepth] at henc
    cases henc
  · intro v hv hdepth
    obtain ⟨u, henc⟩ : ∃ u, v.enclosing? = some u :=
      Option.ne_none_iff_exists'.1 fun hnone => hdepth (depth_eq_zero_iff.2 hnone)
    have hu : u ∈ n.openings := Node.mem_openings_of_enclosing? (hwalked v hv) henc
    refine ⟨u, ⟨hu, (h.mem_childrenOf_iff hu hv).2 henc⟩, ?_⟩
    -- a spot falls into one scope only
    rintro u' ⟨hu', hchild⟩
    have henc' := (h.mem_childrenOf_iff hu' hv).1 hchild
    exact Option.some.inj (henc'.symm.trans henc)
  · intro hscope
    refine ⟨Node.head?_map_number hscope _, ?_⟩
    intro v hv
    rw [Node.depth_eq_zero_iff_eq_start hscope (hwalked v hv)]
    constructor
    · rintro rfl
      exact Node.number_start hscope _
    · intro hv'
      exact number_inj hv (hv'.trans (Node.number_start hscope _).symm)

end Session.Mirrors

namespace Analyzer

/-- **The records mirror lexical nesting.** With integer weights and a recorder that has room, a run
does not fail and hands over one record for every node of scope kind that it walks, each once and in
the order of the walk, and the records are nested like these nodes. -/
theorem records_mirror_nesting (a : Analyzer) (place : Place) (r : Recorder) (h : History)
    {f : Category → Int} (ints : ∀ c, a.weights.get c = .int (f c))
    (room : r.HasRoom place.node.openings.length) :
    (a.analyze (some place) r h).failure = none ∧
    (a.analyze (some place) r h).recorder.records =
      r.records ++ place.node.openings.map (number h.scopes.size place.node.openings) ∧
    (place.node.openings.map (number h.scopes.size place.node.openings)).Nodup ∧
    (a.analyze (some place) r h).history.scopes.NestsLike h.scopes.size place.node := by
  obtain ⟨s, hmirror, hrun⟩ := a.analyze_completes_of_ints place r h ints room
  rw [hrun]
  exact ⟨rfl, rfl, map_number_nodup (fun u hu => hu) place.node.openings_nodup, hmirror.nestsLike⟩

/-- In the sample there are two records, and the second is the child of the first. -/
theorem records_sampleTree :
    (({} : Analyzer).analyze (some (Place.top sampleTree)) Recorder.unlimited
      {}).recorder.records = [0, 1] ∧
    ∃ scope,
      (({} : Analyzer).analyze (some (Place.top sampleTree)) Recorder.unlimited
        {}).history.scopes.get? 0 = some scope ∧
      scope.depth = 0 ∧ scope.children = [1] := by
  obtain ⟨-, hrecords, -, hnest⟩ := records_mirror_nesting {} (Place.top sampleTree)
    Recorder.unlimited {} Weights.get_default_int (Recorder.hasRoom_unlimited _)
  obtain ⟨scope, hget, -, hdepth, hchildren, -⟩ := hnest.scope (.start sampleTree) (by decide)
  refine ⟨hrecords.trans (by decide), scope, hget, hdepth, hchildren.trans (by decide)⟩

end Analyzer

/-! ## What records tell -/

theorem Scope.location_congr {s s' : Scope} (hnode : s.node = s'.node) :
    s.location = s'.location := by
  rw [location, location, isProgram, isProgram, hnode]

theorem Scope.signature_congr {s s' : Scope} (hnode : s.node = s'.node)
    (hparent : s.parent = s'.parent) : s.signature = s'.signature := by
  obtain ⟨node, parent, depth, own, children⟩ := s
  obtain ⟨node', parent', depth', own', children'⟩ := s'
  obtain rfl : node = node' := hnode
  obtain rfl : parent = parent' := hparent
  rfl

/-- What the scope opened at a spot is called. `outer` are the nodes above the start of the walk. -/
def Spot.signature (outer : List Node) (v : Spot) : Node.Read String :=
  (v.scope outer 0 [] Amount.zero).signature

/-- The signature of a record is known from the tree alone. -/
theorem Session.Mirrors.signature_number {w : Weights} {outer : List Node} {old : Store} {n : Node}
    {s : Session} (h : Mirrors w outer old n.walked n.openings none s) {v : Spot}
    (hv : v ∈ n.openings) :
    s.scopes.signature (number old.size n.openings v) = (v.signature outer).orFail := by
  obtain ⟨own, -, hget⟩ := h.made v hv
  rw [Store.signature, hget]
  exact congrArg Node.Read.orFail (Scope.signature_congr rfl rfl)

end ScopeScore
