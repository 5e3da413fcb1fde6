import ScopeScore.Proofs.Analyzer.Records
import Mathlib.Algebra.BigOperators.Group.List.Lemmas

set_option autoImplicit false

/-! # Conservation of score

The score of a scope adds up the own penalties of the scope and of all scopes inside it, so what a
node costs should arrive in the score of every scope around it, and once only. That is what
**`Analyzer.score_eq_costInside`** says.

* The spots below a scope are those that fall into it, together with those below its children, and
  nothing is in two of these lists (`Node.inside_perm`).
* A child has a larger number than its parent, so the recursion of `Store.score` ends before its
  bound is used up (`Session.Mirrors.scoreWithin_eq`).
-/

namespace ScopeScore

open Spot

/-! ## What is below a scope -/

namespace Spot

/-- Those of the spots that are properly below `v`. -/
def inside (v : Spot) (es : List Spot) : List Spot := es.filter fun t => v ∈ t.above

theorem mem_inside {v t : Spot} {es : List Spot} : t ∈ inside v es ↔ t ∈ es ∧ v ∈ t.above := by
  simp [inside]

/-- What is below a scope falls into it, or is below a scope that falls into it. -/
theorem enclosing?_eq_or_exists_of_mem_above {v t : Spot} (hv : v.isScope = true)
    (h : v ∈ t.above) :
    t.enclosing? = some v ∨ ∃ u ∈ t.above, u.isScope = true ∧ u.enclosing? = some v := by
  induction t with
  | start n => simp at h
  | under p i n ih =>
      rcases (mem_upward v p).1 h with rfl | h
      · exact Or.inl (enclosing?_under_of_scope hv i n)
      · rcases ih h with henc | ⟨u, hu, hscope, henc⟩
        · cases hp : p.isScope with
          | true => exact Or.inr ⟨p, List.mem_cons_self, hp, henc⟩
          | false => exact Or.inl (by rw [enclosing?_under_of_not_scope hp, henc])
        · exact Or.inr ⟨u, List.mem_cons_of_mem p hu, hscope, henc⟩

/-- Nothing is below two scopes that fall into the same one. -/
theorem eq_of_enclosing?_eq {u u' v t : Spot} (hu : u ∈ t.above) (hu' : u' ∈ t.above)
    (hs : u.isScope = true) (hs' : u'.isScope = true) (he : u.enclosing? = some v)
    (he' : u'.enclosing? = some v) : u = u' := by
  refine eq_of_depth_eq (List.mem_cons_of_mem t hu) (List.mem_cons_of_mem t hu') hs hs' ?_
  rw [depth_eq_of_enclosing? he, depth_eq_of_enclosing? he']

/-- Nothing falls into a scope and is below another one that falls into it too. -/
theorem enclosing?_ne_of_mem_above {u v t : Spot} (hu : u ∈ t.above) (hs : u.isScope = true)
    (he : u.enclosing? = some v) : t.enclosing? ≠ some v := by
  intro ht
  have hlt := depth_lt_of_mem_above hu hs
  rw [depth_eq_of_enclosing? he, depth_eq_of_enclosing? ht] at hlt
  exact Nat.lt_irrefl _ hlt

end Spot

namespace Node

variable {n : Node} {v : Spot}

/-- **How the spots below a scope are made up**: they fall into it, or are below one of the scopes
that fall into it, and each in one way only. -/
theorem inside_perm (hv : v.isScope = true) :
    (inside v n.walked).Perm (fallingInto v n.walked ++
      (fallingInto v n.openings).flatMap fun u => inside u n.walked) := by
  have hchild : ∀ u ∈ fallingInto v n.openings, u.isScope = true ∧ u.enclosing? = some v := by
    intro u hu
    obtain ⟨hmem, henc⟩ := mem_fallingInto.1 hu
    exact ⟨(mem_scopesAmong.1 hmem).2, henc⟩
  have hright : (fallingInto v n.walked ++
      (fallingInto v n.openings).flatMap fun u => inside u n.walked).Nodup := by
    refine List.nodup_append'.2 ⟨(walked_nodup n).filter _, ?_, ?_⟩
    · -- nothing is inside two children
      refine List.nodup_flatMap.2 ⟨fun u _ => (walked_nodup n).filter _, ?_⟩
      refine (n.openings_nodup.filter _).pairwise_of_forall_ne fun u hu u' hu' hne => ?_
      intro t ht ht'
      obtain ⟨hs, he⟩ := hchild u hu
      obtain ⟨hs', he'⟩ := hchild u' hu'
      exact hne (eq_of_enclosing?_eq (mem_inside.1 ht).2 (mem_inside.1 ht').2 hs hs' he he')
    · -- nothing is inside a child and falls into the scope itself
      intro t ht ht'
      obtain ⟨u, hu, htu⟩ := List.mem_flatMap.1 ht'
      obtain ⟨hs, he⟩ := hchild u hu
      exact enclosing?_ne_of_mem_above (mem_inside.1 htu).2 hs he (mem_fallingInto.1 ht).2
  have hleft : (inside v n.walked).Nodup := (walked_nodup n).filter _
  refine (List.perm_ext_iff_of_nodup hleft hright).2 fun t => ?_
  rw [mem_inside, List.mem_append, mem_fallingInto, List.mem_flatMap]
  constructor
  · rintro ⟨ht, hvt⟩
    rcases enclosing?_eq_or_exists_of_mem_above hv hvt with henc | ⟨u, hu, hs, he⟩
    · exact Or.inl ⟨ht, henc⟩
    · have hmem : u ∈ n.openings := mem_scopesAmong.2 ⟨mem_walked_of_mem_above ht hu, hs⟩
      exact Or.inr ⟨u, mem_fallingInto.2 ⟨hmem, he⟩, mem_inside.2 ⟨ht, hu⟩⟩
  · rintro (⟨ht, henc⟩ | ⟨u, hu, htu⟩)
    · exact ⟨ht, mem_above_of_enclosing? henc⟩
    · obtain ⟨ht, hut⟩ := mem_inside.1 htu
      exact ⟨ht, mem_above_trans (mem_above_of_enclosing? (hchild u hu).2) hut⟩

/-- Everything else of a walk is below the node where it starts. -/
theorem inside_start (n : Node) : inside (.start n) n.walked = n.walked.tail := by
  obtain ⟨rest, hrest⟩ := walked_eq_cons n
  have hnodup : (Spot.start n :: rest).Nodup := hrest ▸ walked_nodup n
  have hbelow : ∀ t ∈ rest, Spot.start n ∈ t.above := by
    intro t ht
    have hup : Spot.start n ∈ t.upward :=
      mem_upward_of_mem_spotsFrom n (by rw [← walked, hrest]; exact List.mem_cons_of_mem _ ht)
    rcases (mem_upward _ t).1 hup with rfl | h
    · exact absurd ht (List.nodup_cons.1 hnodup).1
    · exact h
  rw [hrest, List.tail_cons, inside, List.filter_cons_of_neg (by simp)]
  exact List.filter_eq_self.2 fun t ht => by simpa using hbelow t ht

/-- A scope is opened after the one that it falls into. -/
theorem number_lt_of_enclosing? {base : ScopeId} {u : Spot} (hu : u ∈ n.openings)
    (hv : v ∈ n.openings) (henc : u.enclosing? = some v) :
    number base n.openings v < number base n.openings u := by
  have hpair : n.openings.Pairwise fun x y => y ∉ x.upward := (walked_pairwise n).filter _
  have hvu : v ∈ u.above := mem_above_of_enclosing? henc
  by_contra hle
  rcases Nat.lt_or_eq_of_le (Nat.not_lt.1 hle) with hlt | heq
  · -- then `v` would be entered after `u`, which is below it
    have hidx : n.openings.idxOf u < n.openings.idxOf v := Nat.lt_of_add_lt_add_left hlt
    have hlater := List.pairwise_iff_getElem.1 hpair _ _ (List.idxOf_lt_length_of_mem hu)
      (List.idxOf_lt_length_of_mem hv) hidx
    rw [List.getElem_idxOf, List.getElem_idxOf] at hlater
    exact hlater (List.mem_cons_of_mem u hvu)
  · rw [number_inj hu heq] at hvu
    exact not_mem_above_self v hvu

end Node

/-! ## The sum of scores -/

namespace Node

/-- What the nodes properly inside a scope cost together, if the categories cost `f`. -/
def costInside (f : Category → Int) (n : Node) (v : Spot) : Int :=
  ((inside v n.walked).map fun t => t.node.cost f).sum

/-- The cost of all that is inside a scope is the cost of what falls into it and of all that is
inside its children. -/
theorem costInside_eq (f : Category → Int) {n : Node} {v : Spot} (hv : v.isScope = true) :
    n.costInside f v = ((fallingInto v n.walked).map fun t => t.node.cost f).sum +
      ((fallingInto v n.openings).map (n.costInside f)).sum := by
  calc n.costInside f v
      = ((fallingInto v n.walked ++ (fallingInto v n.openings).flatMap fun u =>
          inside u n.walked).map fun t => t.node.cost f).sum :=
        ((inside_perm hv).map _).sum_eq
    _ = ((fallingInto v n.walked).map fun t => t.node.cost f).sum +
          (((fallingInto v n.openings).flatMap fun u => inside u n.walked).map fun t =>
            t.node.cost f).sum := by rw [List.map_append, List.sum_append]
    _ = _ := by
        rw [List.map_flatMap, sum_flatMap]
        rfl

end Node

namespace Session.Mirrors

variable {w : Weights} {f : Category → Int} {outer : List Node} {old : Store} {n : Node}
  {s : Session}

/-- After a walk the score of a scope is the cost of all that is inside it. The bound on the nesting
may be used up by scopes of smaller numbers, which are not inside. -/
theorem scoreWithin_eq (h : Mirrors w outer old n.walked n.openings none s)
    (hf : ∀ c, w.get c = .int (f c)) (bound : Nat) :
    ∀ v ∈ n.openings, s.scopes.size ≤ number old.size n.openings v + bound →
      s.scopes.scoreWithin bound (number old.size n.openings v) =
        .ok (.int (n.costInside f v)) := by
  induction bound with
  | zero =>
      intro v hv hbound
      rw [h.size] at hbound
      exact absurd hbound (Nat.not_le.2 (number_lt hv))
  | succ bound ih =>
      intro v hv hbound
      obtain ⟨own, htotal, hget⟩ := h.made v hv
      obtain rfl : own = .int ((fallingInto v n.walked).map fun t => t.node.cost f).sum :=
        Except.ok.inj (htotal.symm.trans (total_charges_of_ints hf _))
      have hinner : Amount.sumOf (s.scopes.scoreWithin bound)
          ((fallingInto v n.openings).map (number old.size n.openings)) =
            .ok (.int ((fallingInto v n.openings).map (n.costInside f)).sum) := by
        rw [Amount.sumOf_map]
        refine Amount.sumOf_ints fun u hu => ?_
        obtain ⟨hmem, henc⟩ := mem_fallingInto.1 hu
        -- a child has a larger number, so the bound that is left suffices for it
        refine ih u hmem ?_
        calc s.scopes.size
            ≤ number old.size n.openings v + (bound + 1) := hbound
          _ = number old.size n.openings v + 1 + bound := by
            rw [Nat.add_comm bound 1, ← Nat.add_assoc]
          _ ≤ number old.size n.openings u + bound :=
            Nat.add_le_add_right (Node.number_lt_of_enclosing? hmem hv henc) bound
      rw [Store.scoreWithin, hget]
      show (Amount.sumOf (s.scopes.scoreWithin bound)
        ((fallingInto v n.openings).map (number old.size n.openings)) >>= Amount.add (.int _)) = _
      rw [hinner, Node.costInside_eq f (mem_scopesAmong.1 hv).2]
      rfl

theorem score_number (h : Mirrors w outer old n.walked n.openings none s)
    (hf : ∀ c, w.get c = .int (f c)) {v : Spot} (hv : v ∈ n.openings) :
    s.scopes.score (number old.size n.openings v) = .ok (.int (n.costInside f v)) :=
  h.scoreWithin_eq hf s.scopes.size v hv (Nat.le_add_left ..)

end Session.Mirrors

namespace Analyzer

/-- **Conservation of score.** With integer weights and a recorder that has room, the score of every
record of a run is the cost of all nodes of the walk that are properly below the record's node, each
counted once. So if the walk starts at a scope, the first record has the cost of all nodes but the
one where the walk starts. -/
theorem score_eq_costInside (a : Analyzer) (place : Place) (r : Recorder) (h : History)
    {f : Category → Int} (ints : ∀ c, a.weights.get c = .int (f c))
    (room : r.HasRoom place.node.openings.length) :
    (a.analyze (some place) r h).failure = none ∧
    (a.analyze (some place) r h).recorder.records =
      r.records ++ place.node.openings.map (number h.scopes.size place.node.openings) ∧
    place.node.walked.Nodup ∧
    (∀ v ∈ place.node.openings,
      (∃ scope,
        (a.analyze (some place) r h).history.scopes.get?
          (number h.scopes.size place.node.openings v) = some scope ∧
        scope.node = v.node) ∧
      (a.analyze (some place) r h).history.scopes.score
          (number h.scopes.size place.node.openings v) =
        .ok (.int (place.node.costInside f v))) ∧
    (place.node.kind.isScope = true →
      (place.node.openings.map (number h.scopes.size place.node.openings)).head? =
        some h.scopes.size ∧
      (a.analyze (some place) r h).history.scopes.score h.scopes.size =
        .ok (.int (place.node.walked.tail.map fun t => t.node.cost f).sum)) := by
  obtain ⟨s, hmirror, hrun⟩ := a.analyze_completes_of_ints place r h ints room
  rw [hrun]
  have hscore : ∀ v ∈ place.node.openings,
      s.scopes.score (number h.scopes.size place.node.openings v) =
        .ok (.int (place.node.costInside f v)) := fun v hv =>
    hmirror.scoreWithin_eq ints s.scopes.size v hv (Nat.le_add_left ..)
  refine ⟨rfl, rfl, Node.walked_nodup _, ?_, ?_⟩
  · intro v hv
    obtain ⟨own, -, hget⟩ := hmirror.made v hv
    exact ⟨⟨_, hget, rfl⟩, hscore v hv⟩
  · intro hscope
    refine ⟨Node.head?_map_number hscope _, ?_⟩
    have hstart : Spot.start place.node ∈ place.node.openings := by
      obtain ⟨rest, hrest⟩ := Node.openings_eq_cons hscope
      rw [hrest]
      exact List.mem_cons_self
    have hsum := hscore _ hstart
    rwa [Node.number_start hscope, Node.costInside, Node.inside_start] at hsum

/-- The sample costs 25 in all: a function, an `if` with an alternative and two calls. -/
theorem score_sampleTree :
    (({} : Analyzer).analyze (some (Place.top sampleTree)) Recorder.unlimited
      {}).history.scopes.score 0 = .ok (.int (3 + (10 + 10) + 1 + 1)) := by
  obtain ⟨-, -, -, -, hstart⟩ := score_eq_costInside {} (Place.top sampleTree) Recorder.unlimited {}
    Weights.get_default_int (Recorder.hasRoom_unlimited _)
  exact (hstart (by decide)).2

end Analyzer

end ScopeScore
