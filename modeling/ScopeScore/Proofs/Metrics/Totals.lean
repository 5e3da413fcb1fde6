import ScopeScore.Proofs.Metrics.Agreement
import Mathlib.Algebra.Order.BigOperators.Group.List
import Mathlib.Algebra.Order.Group.Int

set_option autoImplicit false

/-! # Totals of a program

The score of a scope adds up what is in it, so a program as a whole should score what all its scopes
were charged. The metrics take the first record for the program and the records of positive depth for
those inside it. But a parser that had to patch up a tree may give it a root that is no program. Then
several functions can be of depth 0, and the first of them is taken for the program.

* `Node.sum_costOwn`: all own penalties together are the scores of the outermost scopes together.
* **`Source.totals_of_program`** says what the metrics count for any tree, and that for a program
  they count what they should. **`Source.totals_brokenTree`** is a tree where they do not.
-/

namespace ScopeScore

open Spot

namespace Node

variable {n : Node} {f : Category → Int}

/-- What falls into a scope costs together. -/
def costOwn (f : Category → Int) (n : Node) (v : Spot) : Int :=
  ((fallingInto v n.walked).map fun t => t.node.cost f).sum

/-! ## Outermost scopes -/

/-- A scope that is inside another falls into one scope, and into no other. -/
theorem flatMap_fallingInto_perm (n : Node) :
    (n.openings.flatMap fun v => fallingInto v n.openings).Perm
      (n.openings.filter fun u => 0 < u.depth) := by
  have hleft : (n.openings.flatMap fun v => fallingInto v n.openings).Nodup := by
    refine List.nodup_flatMap.2 ⟨fun v _ => n.openings_nodup.filter _, ?_⟩
    refine n.openings_nodup.pairwise_of_forall_ne fun v _ v' _ hne => ?_
    intro u hu hu'
    have henc := (mem_fallingInto.1 hu).2
    exact hne (Option.some.inj (henc.symm.trans (mem_fallingInto.1 hu').2))
  refine (List.perm_ext_iff_of_nodup hleft (n.openings_nodup.filter _)).2 fun u => ?_
  rw [List.mem_flatMap, List.mem_filter, decide_eq_true_iff]
  constructor
  · rintro ⟨v, -, hu⟩
    obtain ⟨hmem, henc⟩ := mem_fallingInto.1 hu
    rw [depth_eq_of_enclosing? henc]
    exact ⟨hmem, Nat.succ_pos _⟩
  · rintro ⟨hu, hdepth⟩
    obtain ⟨v, henc⟩ : ∃ v, u.enclosing? = some v := Option.ne_none_iff_exists'.1 fun hnone =>
      Nat.ne_of_gt hdepth (depth_eq_zero_iff.2 hnone)
    have hv : v ∈ n.openings := mem_openings_of_enclosing? (mem_walked_of_mem_openings hu) henc
    exact ⟨v, hv, mem_fallingInto.2 ⟨hu, henc⟩⟩

/-- **All own penalties together are the scores of the outermost scopes together.** -/
theorem sum_costOwn (f : Category → Int) (n : Node) :
    (n.openings.map (n.costOwn f)).sum =
      ((n.openings.filter fun v => v.depth = 0).map (n.costInside f)).sum := by
  -- both sides are what is left of all scores when those of the inner scopes are taken away
  have hinner : (n.openings.map fun v => ((fallingInto v n.openings).map (n.costInside f)).sum).sum =
      ((n.openings.filter fun u => 0 < u.depth).map (n.costInside f)).sum := by
    rw [← ((flatMap_fallingInto_perm n).map (n.costInside f)).sum_eq, List.map_flatMap, sum_flatMap]
  have hall : (n.openings.map (n.costInside f)).sum = (n.openings.map (n.costOwn f)).sum +
      ((n.openings.filter fun u => 0 < u.depth).map (n.costInside f)).sum := by
    rw [← hinner, ← List.sum_map_add]
    refine congrArg List.sum (List.map_congr_left fun v hv => ?_)
    exact costInside_eq f (mem_scopesAmong.1 hv).2
  have hsplit : (n.openings.map (n.costInside f)).sum =
      ((n.openings.filter fun v => v.depth = 0).map (n.costInside f)).sum +
        ((n.openings.filter fun u => 0 < u.depth).map (n.costInside f)).sum := by
    have hrest : n.openings.filter (fun v => !decide (v.depth = 0)) =
        n.openings.filter fun u => 0 < u.depth :=
      List.filter_congr fun v _ => by simp [Nat.pos_iff_ne_zero]
    rw [← (((List.filter_append_perm (fun v => decide (v.depth = 0)) n.openings).map
      (n.costInside f)).sum_eq), List.map_append, List.sum_append, hrest]
  omega

/-! ## Trees whose root is a scope -/

theorem filter_depth_of_scope (hn : n.kind.isScope = true) :
    n.openings.filter (fun v => v.depth = 0) = [.start n] := by
  obtain ⟨rest, hrest⟩ := openings_eq_cons hn
  have hnodup : (.start n :: rest).Nodup := hrest ▸ n.openings_nodup
  have hnone : rest.filter (fun v => decide (v.depth = 0)) = [] := by
    refine List.filter_eq_nil_iff.2 fun v hv hdepth => ?_
    have hmem : v ∈ n.openings := hrest ▸ List.mem_cons_of_mem _ hv
    have heq := (depth_eq_zero_iff_eq_start hn (mem_walked_of_mem_openings hmem)).1
      (of_decide_eq_true hdepth)
    exact (List.nodup_cons.1 hnodup).1 (heq ▸ hv)
  rw [hrest, List.filter_cons_of_pos (by rfl), hnone]

theorem firstScore_of_scope (hn : n.kind.isScope = true) (f : Category → Int) :
    n.firstScore f = n.costInside f (.start n) := by
  obtain ⟨rest, hrest⟩ := openings_eq_cons hn
  rw [firstScore, hrest]
  rfl

/-- If the root is a scope, the first score is all that was charged. -/
theorem firstScore_eq_sum_costOwn (hn : n.kind.isScope = true) (f : Category → Int) :
    n.firstScore f = (n.openings.map (n.costOwn f)).sum := by
  calc n.firstScore f = ([Spot.start n].map (n.costInside f)).sum := by
        rw [firstScore_of_scope hn, List.map_singleton, List.sum_singleton]
    _ = ((n.openings.filter fun v => v.depth = 0).map (n.costInside f)).sum := by
        rw [filter_depth_of_scope hn]
    _ = (n.openings.map (n.costOwn f)).sum := (sum_costOwn f n).symm

theorem cost_nonneg (hf : ∀ c, 0 ≤ f c) (n : Node) : 0 ≤ n.cost f := by
  refine List.sum_nonneg fun x hx => ?_
  obtain ⟨c, -, rfl⟩ := List.mem_map.1 hx
  exact hf c

theorem costInside_nonneg (hf : ∀ c, 0 ≤ f c) (n : Node) (v : Spot) : 0 ≤ n.costInside f v := by
  refine List.sum_nonneg fun x hx => ?_
  obtain ⟨t, -, rfl⟩ := List.mem_map.1 hx
  exact cost_nonneg hf t.node

/-- Nothing scores more than all below the root together, if no category costs less than nothing. -/
theorem costInside_le_costInside_start (hf : ∀ c, 0 ≤ f c) (n : Node) (v : Spot) :
    n.costInside f v ≤ n.costInside f (.start n) := by
  obtain ⟨rest, hrest⟩ := walked_eq_cons n
  -- the root itself is inside no spot
  have hinside : inside v n.walked = inside v n.walked.tail := by
    rw [hrest, List.tail_cons]
    exact List.filter_cons_of_neg (by simp)
  calc n.costInside f v = ((inside v n.walked.tail).map fun t => t.node.cost f).sum := by
        rw [costInside, hinside]
    _ ≤ (n.walked.tail.map fun t => t.node.cost f).sum := by
        refine (List.filter_sublist.map _).sum_le_sum fun x hx => ?_
        obtain ⟨t, -, rfl⟩ := List.mem_map.1 hx
        exact cost_nonneg hf t.node
    _ = n.costInside f (.start n) := by rw [costInside, inside_start]

theorem max?_innerScores_le (hf : ∀ c, 0 ≤ f c) (hn : n.kind.isScope = true) :
    (n.innerScores f).max?.getD 0 ≤ n.firstScore f := by
  rw [firstScore_of_scope hn]
  cases hmax : (n.innerScores f).max? with
  | none => exact costInside_nonneg hf n (.start n)
  | some x =>
      obtain ⟨v, -, rfl⟩ := List.mem_map.1 (List.max?_eq_some_iff.1 hmax).1
      exact costInside_le_costInside_start hf n v

/-- If the program is only at the root, the scopes inside others are those that are no program. -/
theorem filter_inner_of_program (hn : n.kind = Kind.program)
    (honly : ∀ v ∈ n.openings, v ≠ .start n → v.node.kind ≠ Kind.program) :
    n.openings.filter (fun v => 0 < v.depth) =
      n.openings.filter fun v => !(v.node.kind == Kind.program) := by
  have hscope : n.kind.isScope = true := by
    rw [hn]
    decide
  refine List.filter_congr fun v hv => ?_
  have hdepth := depth_eq_zero_iff_eq_start hscope (mem_walked_of_mem_openings hv)
  by_cases hstart : v = .start n
  · rw [hdepth.2 hstart, hstart, Spot.node, hn]
    decide
  · have hpos : 0 < v.depth := Nat.pos_of_ne_zero fun hzero => hstart (hdepth.1 hzero)
    rw [decide_eq_true hpos, beq_false_of_ne (honly v hv hstart)]
    rfl

end Node

/-! ## Totals of the records -/

namespace Store

/-- Those of the scopes for which `p` holds. -/
def those (s : Store) (p : Scope → Bool) (ids : List ScopeId) : List ScopeId :=
  ids.filter fun id => (s.get? id).any p

/-- These are the own penalties of the scopes. -/
def HaveOwn (s : Store) (ids : List ScopeId) (xs : List Int) : Prop :=
  ids.map (fun id => (s.get? id).map Scope.own) = xs.map fun x => some (.int x)

/-- These are the scores of the scopes. -/
def HaveScores (s : Store) (ids : List ScopeId) (xs : List Int) : Prop :=
  ids.mapM s.score = .ok (xs.map Amount.int)

end Store

namespace Session.Mirrors

variable {w : Weights} {f : Category → Int} {outer : List Node} {old : Store} {n : Node}
  {s : Session}

theorem haveOwn (h : Mirrors w outer old n.walked n.openings none s)
    (hf : ∀ c, w.get c = .int (f c)) :
    s.scopes.HaveOwn (n.openings.map (number old.size n.openings))
      (n.openings.map (n.costOwn f)) := by
  rw [Store.HaveOwn, List.map_map, List.map_map]
  refine List.map_congr_left fun v hv => ?_
  obtain ⟨own, htotal, hget⟩ := h.made v hv
  have hown := Except.ok.inj (htotal.symm.trans (total_charges_of_ints hf _))
  rw [Function.comp_apply, hget, hown]
  rfl

theorem haveScores (h : Mirrors w outer old n.walked n.openings none s)
    (hf : ∀ c, w.get c = .int (f c)) {vs : List Spot} (hvs : ∀ v ∈ vs, v ∈ n.openings) :
    s.scopes.HaveScores (vs.map (number old.size n.openings)) (vs.map (n.costInside f)) := by
  rw [Store.HaveScores, List.map_map]
  exact mapM_map_eq_ok fun v hv => h.score_number hf (hvs v hv)

/-- The scores of the scopes that are chosen by `p` are those of the spots chosen in the same way. -/
theorem haveScores_those (h : Mirrors w outer old n.walked n.openings none s)
    (hf : ∀ c, w.get c = .int (f c)) {p : Scope → Bool} {q : Spot → Bool}
    (hpq : ∀ v ∈ n.openings, ∀ own, p (v.scope outer old.size n.openings own) = q v) :
    s.scopes.HaveScores (s.scopes.those p (n.openings.map (number old.size n.openings)))
      ((n.openings.filter q).map (n.costInside f)) := by
  rw [Store.those, h.filter_number hpq]
  exact h.haveScores hf fun v hv => (List.mem_filter.1 hv).1

end Session.Mirrors

theorem Category.defaultPrice_nonneg (c : Category) : 0 ≤ c.defaultPrice := by
  cases c <;> decide

namespace Source

/-- **Totals of a program.** Take a text that is not empty, the tree that the parser makes of it, and
a source of this text that was analysed with the default weights.

* Whatever the root is, the first metric and the score of the source are the score of the first
  record, and the third metric is the greatest score of a record inside another. All own penalties
  together are the scores of the records of depth 0 together.
* If the root is a program, the first metric and the score of the source are all own penalties
  together, and the third metric is not greater. If no other node is a program, it is the greatest
  score of a record that is no program. -/
theorem totals_of_program (parse : Parser) (text : String) (nonempty : text ≠ "") (source : Source)
    (htext : source.text = some text) (htree : ∀ t, source.tree = some t → t = parse text)
    (a : Analyzer) (hweights : a.weights = Weights.default) (h : History) :
    let root := (parse text).root
    let result := source.analyze parse a h
    let ids := result.source.records
    let scopes := result.history.scopes
    result.failure = none ∧ ∃ own scores outer inner : List Int,
      scopes.HaveOwn ids own ∧ scopes.HaveScores ids scores ∧
      scopes.HaveScores (scopes.those (fun scope => scope.depth = 0) ids) outer ∧
      scopes.HaveScores (scopes.those (fun scope => 0 < scope.depth) ids) inner ∧
      (Registry.standard.measure "Hell Score" (some (Place.top root))).Yields
        (.int (scores.head?.getD 0)) ∧
      result.source.score scopes = .ok (.int (scores.head?.getD 0)) ∧
      (Registry.standard.measure "Hell Max Scope Score" (some (Place.top root))).Yields
        (.int (inner.max?.getD 0)) ∧
      own.sum = outer.sum ∧
      (root.kind = Kind.program →
        scores.head?.getD 0 = own.sum ∧ inner.max?.getD 0 ≤ own.sum ∧
        ((∀ v ∈ root.openings, v ≠ .start root → v.node.kind ≠ Kind.program) →
          scopes.HaveScores (scopes.those (fun scope => !scope.isProgram) ids) inner)) := by
  intro root result ids scopes
  obtain ⟨old, last, hmirror, hfailure, hhistory, hrecords⟩ :=
    analyze_mirrors nonempty htext htree hweights h
  have hids : ids = root.openings.map (number old.size root.openings) := hrecords
  have hscopes : scopes = last.scopes := congrArg History.scopes hhistory
  have hfirst : (root.openings.map (root.costInside Category.defaultPrice)).head?.getD 0 =
      root.firstScore Category.defaultPrice := by
    rw [List.head?_map, Node.firstScore]
  rw [hscopes, hids]
  have houter := hmirror.haveScores_those Weights.get_default
    (p := fun scope => scope.depth = 0) (q := fun v => v.depth = 0)
    fun v _ own => decide_eq_decide.2 Int.natCast_eq_zero
  have hinner := hmirror.haveScores_those Weights.get_default
    (p := fun scope => 0 < scope.depth) (q := fun v => 0 < v.depth)
    fun v _ own => decide_eq_decide.2 Int.natCast_pos
  have hmeasure := Node.measure_figures (Place.top root)
  refine ⟨hfailure, _, _, _, _, hmirror.haveOwn Weights.get_default,
    hmirror.haveScores Weights.get_default fun v hv => hv, houter, hinner, ?_, ?_,
    hmeasure.greatest, Node.sum_costOwn Category.defaultPrice root, ?_⟩
  · rw [hfirst]
    exact hmeasure.score
  · rw [hfirst]
    exact hmirror.score_source Weights.get_default hrecords
  · intro hprogram
    have hscope : root.kind.isScope = true := by
      rw [hprogram]
      decide
    rw [hfirst, ← Node.firstScore_eq_sum_costOwn hscope]
    refine ⟨rfl, Node.max?_innerScores_le Category.defaultPrice_nonneg hscope, fun honly => ?_⟩
    rw [Node.filter_inner_of_program hprogram honly]
    exact hmirror.haveScores_those Weights.get_default fun v _ own => rfl

/-- In the sample, which is a program, the metrics count all own penalties, and the greatest score of
a record that is no program. -/
theorem totals_sampleTree :
    let parse : Parser := fun _ => { root := sampleTree, patched := false }
    let source : Source := { path := none, text := some "x" }
    let result := source.analyze parse {} {}
    let ids := result.source.records
    let scopes := result.history.scopes
    ∃ own inner : List Int, scopes.HaveOwn ids own ∧
      scopes.HaveScores (scopes.those (fun scope => !scope.isProgram) ids) inner ∧
      (Registry.standard.measure "Hell Score" (some (Place.top sampleTree))).Yields
        (.int own.sum) ∧
      (Registry.standard.measure "Hell Max Scope Score" (some (Place.top sampleTree))).Yields
        (.int (inner.max?.getD 0)) ∧
      inner.max?.getD 0 ≤ own.sum := by
  intro parse source result ids scopes
  obtain ⟨-, own, scores, outer, inner, hown, -, -, -, hscore, -, hgreatest, -, hprogram⟩ :=
    totals_of_program parse "x" (by decide) source rfl (by rintro _ ⟨⟩) {} rfl {}
  obtain ⟨hsum, hle, honly⟩ := hprogram rfl
  rw [hsum] at hscore
  exact ⟨own, inner, hown, honly (by decide), hscore, hgreatest, hle⟩

/-- **A tree where the metrics do not count what they should.** Its root is no program, so that it has
two functions of depth 0. All own penalties together are 13, but the first metric and the score of
the source are 0. The greatest score of a record is 13, but the third metric is 10, which is more
than the first. -/
theorem totals_brokenTree :
    let parse : Parser := fun _ => { root := brokenTree, patched := true }
    let source : Source := { path := none, text := some "x" }
    let result := source.analyze parse {} {}
    let ids := result.source.records
    let scopes := result.history.scopes
    scopes.HaveOwn ids [0, 3, 10] ∧
    scopes.HaveScores (scopes.those (fun scope => !scope.isProgram) ids) [0, 13, 10] ∧
    (Registry.standard.measure "Hell Score" (some (Place.top brokenTree))).Yields (.int 0) ∧
    result.source.score scopes = .ok (.int 0) ∧
    (Registry.standard.measure "Hell Max Scope Score" (some (Place.top brokenTree))).Yields
      (.int 10) := by
  intro parse source result ids scopes
  have nonempty : "x" ≠ "" := by decide
  have htree : ∀ t, source.tree = some t → t = parse "x" := by rintro _ ⟨⟩
  obtain ⟨old, last, hmirror, -, hhistory, hrecords⟩ :=
    analyze_mirrors nonempty (s := source) rfl htree (a := {}) rfl {}
  have hids : ids = brokenTree.openings.map (number old.size brokenTree.openings) := hrecords
  have hscopes : scopes = last.scopes := congrArg History.scopes hhistory
  have hown : brokenTree.openings.map (brokenTree.costOwn Category.defaultPrice) = [0, 3, 10] := by
    decide
  have hscores : (brokenTree.openings.filter fun v => !(v.node.kind == Kind.program)).map
      (brokenTree.costInside Category.defaultPrice) = [0, 13, 10] := by decide
  have hfirst : brokenTree.firstScore Category.defaultPrice = 0 := by decide
  have hinner : (brokenTree.innerScores Category.defaultPrice).max?.getD 0 = 10 := by decide
  have hmeasure := Node.measure_figures (Place.top brokenTree)
  rw [hscopes, hids, ← hown, ← hscores, ← hfirst, ← hinner]
  exact ⟨hmirror.haveOwn Weights.get_default,
    hmirror.haveScores_those Weights.get_default fun v _ own => rfl, hmeasure.score,
    hmirror.score_source Weights.get_default hrecords, hmeasure.greatest⟩

end Source

end ScopeScore
