import ScopeScore.Proofs.Analyzer.Conservation
import ScopeScore.Proofs.Tree.Graft

set_option autoImplicit false

/-! # Analysing a part of a tree

An analysis may start at any function of a tree. Its records then are a slice of those that an
analysis from further up makes: the records of that function and of the functions inside it, which
stand side by side. Only depths differ, and the name of the function where the inner walk starts,
since there it has nothing around it.

* `Node.InnerWalk.number_graft`: the slice is numbered without a gap.
* `Spot.namingNode?_graft`: a function inside is named by the same node in both runs, for the search
  for that node ends at the outermost function of the slice, whatever stands above it.

**`Analyzer.slice_of_run`** compares the two runs record by record.
-/

namespace ScopeScore

open Spot

/-! ## What is read off the scopes -/

namespace Spot

variable {v t : Spot}

/-- **The search for a naming node does not leave the inner walk**: it stops at the node of `v` at
the latest, whatever stands above it. -/
theorem namingNode?_graft (hv : v.isScope = true) (ht : start v.node ∈ t.above)
    (outer above : List Node) :
    Session.namingNode? outer (graft v t).visit = Session.namingNode? above t.visit := by
  have hup : start v.node ∈ t.upward := List.mem_cons_of_mem t ht
  have hnode : v.node ∈ t.above.map node := List.mem_map.2 ⟨_, ht, rfl⟩
  have hkind : (v.node.kind != Kind.parenthesizedExpression) = true := by
    have hscope : v.node.kind ∈ Kind.scopes := List.contains_iff_mem.1 hv
    have hall : ∀ k ∈ Kind.scopes, (k != Kind.parenthesizedExpression) = true := by decide
    exact hall _ hscope
  have hfound : ((t.above.map node).find?
      fun n => n.kind != Kind.parenthesizedExpression).isSome = true :=
    List.find?_isSome.2 ⟨v.node, hnode, hkind⟩
  have hinner : ∀ others : List Node, (t.above.map node ++ others).find?
      (fun n => n.kind != Kind.parenthesizedExpression) =
        (t.above.map node).find? fun n => n.kind != Kind.parenthesizedExpression := by
    intro others
    rw [List.find?_append, Option.or_of_isSome hfound]
  have hsome : ∀ (path others : List Node) (u : Spot), u.visit.path = path → path ≠ [] →
      Session.namingNode? others u.visit =
        (path ++ others).find? fun n => n.kind != Kind.parenthesizedExpression := by
    intro path others u hpath hne
    unfold Session.namingNode?
    rw [hpath]
    cases path with
    | nil => exact absurd rfl hne
    | cons n ns => rfl
  have hne : t.above.map node ≠ [] := List.ne_nil_of_mem hnode
  rw [hsome (t.above.map node ++ v.above.map node) outer _ (map_node_above_graft hup)
      (by simp [List.ne_nil_of_mem ht]), hsome (t.above.map node) above t rfl hne,
    List.append_assoc, hinner, hinner]

end Spot

namespace Node

/-- Scopes are numbered in the order in which they are opened. -/
theorem number_of_getElem? {n : Node} {t : Spot} {k : Nat} (ht : n.openings[k]? = some t)
    (base : ScopeId) : number base n.openings t = base + k := by
  obtain ⟨hlt, rfl⟩ := List.getElem?_eq_some_iff.1 ht
  rw [number, n.openings_nodup.idxOf_getElem k hlt]

theorem map_number_openings (n : Node) (base : ScopeId) :
    n.openings.map (number base n.openings) = List.range' base n.openings.length := by
  refine List.ext_getElem (by simp) fun k hk _ => ?_
  rw [List.length_map] at hk
  rw [List.getElem_map, number_of_getElem? (List.getElem?_eq_getElem hk), List.getElem_range',
    Nat.one_mul]

end Node

/-- With integer weights and room in the recorder, the records of a run are those of all functions
and programs, so they are at the first positions. -/
theorem Analyzer.positions_eq_range (a : Analyzer) (place : Place) (r : Recorder) (h : History)
    {f : Category → Int} (ints : ∀ c, a.weights.get c = .int (f c))
    (room : r.HasRoom place.node.openings.length) {positions : List Nat}
    (hrecords : (a.analyze (some place) r h).recorder.records =
      r.records ++ positions.map (h.scopes.size + ·)) :
    positions = List.range place.node.openings.length := by
  obtain ⟨s, -, hrun⟩ := a.analyze_completes_of_ints place r h ints room
  rw [hrun] at hrecords
  have hall : place.node.openings.map (number h.scopes.size place.node.openings) =
      positions.map (h.scopes.size + ·) := List.append_cancel_left hrecords
  rw [Node.map_number_openings, List.range'_eq_map_range] at hall
  exact (List.map_injective_iff.2 (add_right_injective h.scopes.size) hall).symm

namespace Node.InnerWalk

variable {n : Node} {v : Spot} {pre post : List Spot}

theorem openings_eq (h : InnerWalk n v pre post) :
    n.openings = scopesAmong pre ++ v.node.openings.map (graft v) ++ scopesAmong post := by
  have hblock : scopesAmong (v.node.walked.map (graft v)) = v.node.openings.map (graft v) := by
    rw [scopesAmong, List.filter_map]
    refine congrArg (List.map (graft v)) (List.filter_congr fun t ht => ?_)
    exact isScope_graft (start_mem_upward ht)
  rw [openings, h.walked, scopesAmong_append, scopesAmong_append, hblock]

/-- The scopes of the inner walk are those at or below `v`. -/
theorem filter_openings (h : InnerWalk n v pre post) :
    n.openings.filter (fun u => v ∈ u.upward) = v.node.openings.map (graft v) := by
  rw [openings, scopesAmong, List.filter_filter]
  refine h.filter_walked ?_ ?_
  · intro x hx
    simp only [hx, decide_false, Bool.false_and]
  · intro t ht
    rw [isScope_graft (start_mem_upward ht), decide_eq_true (mem_upward_graft v t), Bool.true_and]

theorem graft_mem_openings (h : InnerWalk n v pre post) {t : Spot} (ht : t ∈ v.node.openings) :
    graft v t ∈ n.openings := by
  rw [h.openings_eq]
  exact List.mem_append_left _ (List.mem_append_right _ (List.mem_map_of_mem ht))

theorem fallingInto_walked (h : InnerWalk n v pre post) (hv : v.isScope = true) {t : Spot}
    (ht : t ∈ v.node.walked) :
    fallingInto (graft v t) n.walked = (fallingInto t v.node.walked).map (graft v) := by
  refine h.filter_walked ?_ ?_
  · intro x hx
    have hne : x.enclosing? ≠ some (graft v t) := by
      intro henc
      have habove := mem_above_of_enclosing? henc
      exact hx (List.mem_cons_of_mem x (mem_above_of_mem_upward (mem_upward_graft v t) habove))
    simp [hne]
  · intro x hx
    simp only [h.enclosing?_graft_eq_iff hv ht hx]

theorem fallingInto_openings (h : InnerWalk n v pre post) (hv : v.isScope = true) {t : Spot}
    (ht : t ∈ v.node.walked) :
    fallingInto (graft v t) n.openings = (fallingInto t v.node.openings).map (graft v) := by
  have hswap : ∀ (u : Spot) (es : List Spot),
      fallingInto u (scopesAmong es) = scopesAmong (fallingInto u es) := by
    intro u es
    simp only [fallingInto, scopesAmong, List.filter_filter, Bool.and_comm]
  rw [openings, openings, hswap, hswap, h.fallingInto_walked hv ht, scopesAmong, List.filter_map]
  refine congrArg (List.map (graft v)) (List.filter_congr fun u hu => ?_)
  exact isScope_graft (start_mem_upward (mem_fallingInto.1 hu).1)

theorem inside_walked (h : InnerWalk n v pre post) {t : Spot} (ht : t ∈ v.node.walked) :
    inside (graft v t) n.walked = (inside t v.node.walked).map (graft v) := by
  refine h.filter_walked ?_ ?_
  · intro x hx
    have hnot : graft v t ∉ x.above := fun habove =>
      hx (List.mem_cons_of_mem x (mem_above_of_mem_upward (mem_upward_graft v t) habove))
    simp [hnot]
  · intro x hx
    simp only [h.graft_mem_above_graft_iff ht hx]

theorem charges_map_graft (w : Weights) {es : List Spot} (hes : ∀ t ∈ es, t ∈ v.node.walked) :
    charges w (es.map (graft v)) = charges w es := by
  rw [charges, charges, List.flatMap_map]
  refine List.flatMap_congr fun t ht => ?_
  rw [node_graft (start_mem_upward (hes t ht))]

theorem costInside_graft (h : InnerWalk n v pre post) (f : Category → Int) {t : Spot}
    (ht : t ∈ v.node.walked) : n.costInside f (graft v t) = v.node.costInside f t := by
  rw [costInside, costInside, h.inside_walked ht, List.map_map]
  refine congrArg List.sum (List.map_congr_left fun u hu => ?_)
  rw [Function.comp_apply, node_graft (start_mem_upward (mem_inside.1 hu).1)]

/-! ## How the slice is numbered -/

theorem idxOf_map_graft (h : InnerWalk n v pre post) {t : Spot} (ht : t ∈ v.node.openings) :
    (v.node.openings.map (graft v)).idxOf (graft v t) = v.node.openings.idxOf t := by
  have hnodup : (v.node.openings.map (graft v)).Nodup :=
    h.nodup_map_graft.sublist (List.filter_sublist.map _)
  have hlt : v.node.openings.idxOf t < (v.node.openings.map (graft v)).length := by
    rw [List.length_map]
    exact List.idxOf_lt_length_of_mem ht
  have hget : (v.node.openings.map (graft v))[v.node.openings.idxOf t] = graft v t := by
    rw [List.getElem_map, List.getElem_idxOf]
  have hidx := hnodup.idxOf_getElem (v.node.openings.idxOf t) hlt
  rwa [hget] at hidx

/-- **The slice is numbered without a gap**, from the number of `v` on and in the order of the inner
walk. -/
theorem number_graft (h : InnerWalk n v pre post) (hv : v.isScope = true) {t : Spot}
    (ht : t ∈ v.node.openings) (base : ScopeId) :
    number base n.openings (graft v t) =
      number (number base n.openings v) v.node.openings t := by
  have hindex : ∀ u ∈ v.node.openings,
      n.openings.idxOf (graft v u) = (scopesAmong pre).length + v.node.openings.idxOf u := by
    intro u hu
    have hpre : graft v u ∉ scopesAmong pre := fun hmem =>
      h.outside _ (List.mem_append_left _ (mem_scopesAmong.1 hmem).1) (mem_upward_graft v u)
    have hmem : graft v u ∈ v.node.openings.map (graft v) := List.mem_map_of_mem hu
    rw [h.openings_eq, List.append_assoc, List.idxOf_append_of_notMem hpre,
      List.idxOf_append_of_mem hmem, h.idxOf_map_graft hu]
  obtain ⟨rest, hrest⟩ := openings_eq_cons (n := v.node) hv
  have hstart : start v.node ∈ v.node.openings := hrest ▸ List.mem_cons_self
  have hfirst : n.openings.idxOf v = (scopesAmong pre).length := by
    have hzero : v.node.openings.idxOf (start v.node) = 0 := by
      rw [hrest, List.idxOf_cons_self]
    have hv := hindex _ hstart
    rwa [hzero, Nat.add_zero] at hv
  rw [number, number, number, hindex t ht, hfirst, Nat.add_assoc]

theorem map_number_map_graft (h : InnerWalk n v pre post) (hv : v.isScope = true) (base : ScopeId)
    {us : List Spot} (hus : ∀ u ∈ us, u ∈ v.node.openings) :
    (us.map (graft v)).map (number base n.openings) =
      us.map (number (number base n.openings v) v.node.openings) := by
  rw [List.map_map]
  exact List.map_congr_left fun u hu => h.number_graft hv (hus u hu) base

end Node.InnerWalk

/-! ## Two runs side by side -/

/-- A function with nothing around it has no name but its own. -/
theorem Scope.signature_of_no_parent {s : Scope} (h : s.parent = none) :
    s.signature =
      if s.node.kind = Kind.program then .ok programSignature
      else do return (← Node.identifierName? (s.node.child? "name")).getD anonymousSignature := by
  have hvariable : s.variableName? = .ok none := by rw [variableName?, h]
  have hassigned : s.assignedName? = .ok none := by rw [assignedName?, h]
  have hname : s.functionName? = s.ownName? := by
    rw [functionName?, hvariable, hassigned]
    rcases s.ownName? with fault | (- | name) <;> rfl
  rw [signature, hname, isProgram]
  by_cases hp : s.node.kind = Kind.program
  · rw [if_pos hp, if_pos (beq_iff_eq.2 hp)]
  · rw [if_neg hp, if_neg fun e => hp (beq_iff_eq.1 e), ownName?]

/-- One function as two runs see it. The runs number their common scopes from `base` and from
`base'` on, and the first run starts `lift` scopes further up. -/
structure Scope.Matches (base base' : ScopeId) (lift : Nat) (outer inner : Scope) : Prop where
  node : outer.node = inner.node
  own : outer.own = inner.own
  location : outer.location = inner.location
  depth : outer.depth = inner.depth + lift
  /-- The children are at the same positions. -/
  children : ∃ positions : List Nat, outer.children = positions.map (base + ·) ∧
    inner.children = positions.map (base' + ·)

namespace Node.InnerWalk

variable {n : Node} {v : Spot} {pre post : List Spot}

theorem matches_scope (h : InnerWalk n v pre post) (hv : v.isScope = true) {t : Spot}
    (ht : t ∈ v.node.walked) (outer above : List Node) (base base' : ScopeId) (own : Amount) :
    ((graft v t).scope outer base n.openings own).Matches (number base n.openings v) base' v.depth
      (t.scope above base' v.node.openings own) := by
  have hup : start v.node ∈ t.upward := start_mem_upward ht
  have hnode : (graft v t).node = t.node := node_graft hup
  refine ⟨hnode, rfl, ?_, ?_, (fallingInto t v.node.openings).map v.node.openings.idxOf, ?_, ?_⟩
  · exact Scope.location_congr hnode
  · show ((graft v t).depth : Int) = t.depth + v.depth
    rw [depth_graft hup, Nat.cast_add]
  · show (fallingInto (graft v t) n.openings).map (number base n.openings) = _
    rw [h.fallingInto_openings hv ht, h.map_number_map_graft hv base fun u hu =>
      (mem_fallingInto.1 hu).1, List.map_map]
    rfl
  · rw [List.map_map]
    rfl

end Node.InnerWalk

namespace Session.Mirrors

variable {w : Weights} {outer : List Node} {old : Store} {n : Node} {s : Session}

/-- Where a walk starts there is nothing around that could give a name. -/
theorem signature_start (h : Mirrors w outer old n.walked n.openings none s)
    (hn : n.kind.isScope = true) :
    s.scopes.signature old.size = Node.Read.orFail
      (if n.kind = Kind.program then .ok Scope.programSignature
      else do return (← Node.identifierName? (n.child? "name")).getD Scope.anonymousSignature) := by
  obtain ⟨rest, hrest⟩ := Node.openings_eq_cons hn
  have hsig := h.signature_number (v := .start n) (hrest ▸ List.mem_cons_self)
  rw [Node.number_start hn, Spot.signature, Scope.signature_of_no_parent rfl] at hsig
  exact hsig

variable {above : List Node} {old' : Store} {v t : Spot} {s' : Session} {pre post : List Spot}

/-- What the two runs hold of a function inside. -/
theorem matches_get? (h : Mirrors w outer old n.walked n.openings none s)
    (hin : n.InnerWalk v pre post) (hv : v.isScope = true) (ht : t ∈ v.node.openings)
    (h' : Mirrors w above old' v.node.walked v.node.openings none s') :
    ∃ whole part,
      s.scopes.get? (number old.size n.openings (graft v t)) = some whole ∧
      s'.scopes.get? (number old'.size v.node.openings t) = some part ∧
      whole.node = (graft v t).node ∧
      whole.Matches (number old.size n.openings v) old'.size v.depth part := by
  have hwalked : t ∈ v.node.walked := Node.mem_walked_of_mem_openings ht
  obtain ⟨own, htotal, hget⟩ := h.made (graft v t) (hin.graft_mem_openings ht)
  obtain ⟨own', htotal', hget'⟩ := h'.made t ht
  have hown : own = own' := by
    rw [hin.fallingInto_walked hv hwalked,
      Node.InnerWalk.charges_map_graft w fun x hx => (mem_fallingInto.1 hx).1] at htotal
    exact Except.ok.inj (htotal.symm.trans htotal')
  subst hown
  exact ⟨_, _, hget, hget', rfl, hin.matches_scope hv hwalked ..⟩

/-- A function inside has the same name in both runs. -/
theorem signature_graft (h : Mirrors w outer old n.walked n.openings none s)
    (hin : n.InnerWalk v pre post) (hv : v.isScope = true) (ht : t ∈ v.node.openings)
    (hstart : t ≠ .start v.node)
    (h' : Mirrors w above old' v.node.walked v.node.openings none s') :
    s.scopes.signature (number old.size n.openings (graft v t)) =
      s'.scopes.signature (number old'.size v.node.openings t) := by
  have hup : .start v.node ∈ t.upward :=
    Node.start_mem_upward (Node.mem_walked_of_mem_openings ht)
  have habove : .start v.node ∈ t.above :=
    ((mem_upward _ t).1 hup).resolve_left fun e => hstart e.symm
  rw [h.signature_number (hin.graft_mem_openings ht), h'.signature_number ht]
  refine congrArg Node.Read.orFail (Scope.signature_congr ?_ ?_)
  · exact node_graft hup
  · exact namingNode?_graft hv habove outer above

end Session.Mirrors

namespace Analyzer

/-- **A part of a run.** Let a walk reach a function or program at `v`, and let a second run start
at that node, whatever stands above it. With integer weights and recorders that have room neither
run fails, and the records of the second correspond one to one to those of the first that are at or
below `v`. These stand side by side, from the record of `v` on. Corresponding records agree in
location, own penalty, score and the positions of their children, and differ in depth by the depth
of `v`. They have the same signature, except that the one where the second run starts has no name
from around it. -/
theorem slice_of_run (a : Analyzer) (place : Place) {v : Spot} (hv : v ∈ place.node.openings)
    (above : List Node) (r r' : Recorder) (h h' : History) {f : Category → Int}
    (ints : ∀ c, a.weights.get c = .int (f c)) (room : r.HasRoom place.node.openings.length)
    (room' : r'.HasRoom v.node.openings.length) :
    let whole := a.analyze (some place) r h
    let part := a.analyze (some { node := v.node, above := above }) r' h'
    let first := number h.scopes.size place.node.openings v
    let below := place.node.openings.filter fun u => v ∈ u.upward
    whole.failure = none ∧ part.failure = none ∧
    whole.recorder.records =
      r.records ++ place.node.openings.map (number h.scopes.size place.node.openings) ∧
    (∃ before after, place.node.openings = before ++ below ++ after) ∧
    below.map (number h.scopes.size place.node.openings) = List.range' first below.length ∧
    part.recorder.records = r'.records ++ List.range' h'.scopes.size below.length ∧
    (∀ (k : Nat) (u : Spot), below[k]? = some u →
      ∃ outer inner cost,
        whole.history.scopes.get? (first + k) = some outer ∧
        part.history.scopes.get? (h'.scopes.size + k) = some inner ∧
        outer.node = u.node ∧
        outer.Matches first h'.scopes.size v.depth inner ∧
        whole.history.scopes.score (first + k) = .ok (.int cost) ∧
        part.history.scopes.score (h'.scopes.size + k) = .ok (.int cost) ∧
        (k ≠ 0 → whole.history.scopes.signature (first + k) =
          part.history.scopes.signature (h'.scopes.size + k))) ∧
    part.history.scopes.signature h'.scopes.size = Node.Read.orFail
      (if v.node.kind = Kind.program then .ok Scope.programSignature
      else do
        return (← Node.identifierName? (v.node.child? "name")).getD Scope.anonymousSignature) := by
  have hscope : v.isScope = true := (mem_scopesAmong.1 hv).2
  obtain ⟨pre, post, hinner⟩ := Node.exists_innerWalk (Node.mem_walked_of_mem_openings hv)
  obtain ⟨s, hmirror, hrun⟩ := a.analyze_completes_of_ints place r h ints room
  obtain ⟨s', hmirror', hrun'⟩ :=
    a.analyze_completes_of_ints { node := v.node, above := above } r' h' ints room'
  intro whole part first below
  have hbelow : below = v.node.openings.map (graft v) := hinner.filter_openings
  have hlength : below.length = v.node.openings.length := by rw [hbelow, List.length_map]
  have hwhole : whole = _ := hrun
  have hpart : part = _ := hrun'
  rw [hwhole, hpart]
  refine ⟨rfl, rfl, rfl, ⟨_, _, hbelow ▸ hinner.openings_eq⟩, ?_, ?_, ?_, ?_⟩
  · rw [hlength, hbelow, hinner.map_number_map_graft hscope _ fun u hu => hu]
    exact Node.map_number_openings ..
  · rw [hlength, ← Node.map_number_openings]
    rfl
  · intro k u hu
    rw [hbelow, List.getElem?_map] at hu
    obtain ⟨t, htk, rfl⟩ := Option.map_eq_some_iff.1 hu
    have ht : t ∈ v.node.openings := List.mem_of_getElem? htk
    have hnumber' : number h'.scopes.size v.node.openings t = h'.scopes.size + k :=
      Node.number_of_getElem? htk _
    have hnumber : number h.scopes.size place.node.openings (graft v t) = first + k :=
      (hinner.number_graft hscope ht _).trans (Node.number_of_getElem? htk _)
    have hcost := hmirror.score_number ints (hinner.graft_mem_openings ht)
    have hcost' := hmirror'.score_number ints ht
    obtain ⟨outer, inner, hget, hget', hnode, hmatch⟩ :=
      hmirror.matches_get? hinner hscope ht hmirror'
    rw [hinner.costInside_graft f (Node.mem_walked_of_mem_openings ht), hnumber] at hcost
    rw [hnumber'] at hcost'
    rw [hnumber] at hget
    rw [hnumber'] at hget'
    refine ⟨outer, inner, _, hget, hget', hnode, hmatch, hcost, hcost', fun hk => ?_⟩
    have hstart : t ≠ start v.node := by
      rintro rfl
      rw [Node.number_start hscope] at hnumber'
      exact hk (Nat.add_eq_left.1 hnumber'.symm)
    have hsig := hmirror.signature_graft hinner hscope ht hstart hmirror'
    rwa [hnumber, hnumber'] at hsig
  · exact hmirror'.signature_start hscope

/-- A program with a method in it, and in that a function which a variable gives its name. -/
def nestedTree : Node :=
  let node (id : Nat) (kind : Kind) (field : Option String) (text : Option (List UInt8))
      (children : List Node) : Node :=
    .node { id, kind, named := true, field, row := 0, text } children
  node 0 "program" none none
    [node 1 "call_expression" none none [],
      node 2 "method_definition" none none
        [node 3 "variable_declarator" none none
          [node 4 "identifier" (some "name") (some [103]) [],
            node 5 "function_expression" (some "value") none
              [node 6 "call_expression" none none []]]]]

/-- In the nested tree the run that starts at the method has two records. The second is that of the
function inside, with the name and the score of the whole run and one level further up. -/
theorem slice_nestedTree :
    ∃ v ∈ nestedTree.openings, v.depth = 1 ∧
      let whole := ({} : Analyzer).analyze (some (Place.top nestedTree)) Recorder.unlimited {}
      let part := ({} : Analyzer).analyze (some { node := v.node, above := [nestedTree] })
        Recorder.unlimited {}
      part.failure = none ∧ part.recorder.records = [0, 1] ∧
      (∃ outer inner, whole.history.scopes.get? 2 = some outer ∧
        part.history.scopes.get? 1 = some inner ∧ outer.depth = inner.depth + 1) ∧
      whole.history.scopes.score 2 = part.history.scopes.score 1 ∧
      whole.history.scopes.signature 2 = part.history.scopes.signature 1 ∧
      part.history.scopes.signature 0 = .ok "anonymous" := by
  obtain ⟨v, hget⟩ : ∃ v, nestedTree.openings[1]? = some v := ⟨_, rfl⟩
  have hv : v ∈ nestedTree.openings := List.mem_of_getElem? hget
  obtain rfl : _ = v := Option.some.inj hget
  obtain ⟨-, hfail, -, -, -, hrecords, hall, hstart⟩ := slice_of_run {} (Place.top nestedTree) hv
    [nestedTree] Recorder.unlimited Recorder.unlimited {} {} Weights.get_default_int
    (Recorder.hasRoom_unlimited _) (Recorder.hasRoom_unlimited _)
  obtain ⟨outer, inner, cost, houter, hinner, -, hmatch, hscore, hscore', hsig⟩ := hall 1 _ rfl
  exact ⟨_, hv, rfl, hfail, hrecords, ⟨outer, inner, houter, hinner, hmatch.depth⟩,
    hscore.trans hscore'.symm, hsig (by decide), hstart⟩

end Analyzer

end ScopeScore
