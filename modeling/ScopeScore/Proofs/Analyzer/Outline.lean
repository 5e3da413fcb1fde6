import ScopeScore.Proofs.Analyzer.Slice

set_option autoImplicit false

/-! # What weights do

Weights decide how much a record scores, and nothing else about it. An `Outline` is all that is
known of a record before any weight is given: its node and the node that names it, where it stands
among the records, and how often each category is charged to it and to all that is inside it.
`Place.outlines` reads the outlines of all records off the tree.

* `Spot.sum_cost_eq_price`: what some spots cost is linear in the weights, with the numbers of their
  penalties as coefficients.
* **`Analyzer.weights_act_linearly`**: whatever integers the weights are, a run shows the same
  outlines, priced by these weights.
-/

namespace ScopeScore

open Spot

/-! ## Prices -/

/-- What some penalties cost, if they are counted by `k` and the categories cost `f`. -/
def Category.price (f : Category → Int) (k : Category → Nat) : Int :=
  k .branch * f .branch + k .branchEmpty * f .branchEmpty + k .fn * f .fn + k .call * f .call

/-- The cost of a list of penalties is known from how often each category stands in it. -/
theorem Category.sum_map_eq_price (f : Category → Int) (cs : List Category) :
    (cs.map f).sum = price f fun c => cs.count c := by
  induction cs with
  | nil => simp [price]
  | cons c cs ih =>
      rw [List.map_cons, List.sum_cons, ih]
      cases c <;> simp only [price, List.count_cons, beq_iff_eq, reduceCtorEq, if_true, if_false,
        Nat.add_zero, Nat.cast_add, Nat.cast_one, Int.add_mul, Int.one_mul] <;> omega

/-- How often some spots are charged for a category. -/
def Spot.tally (es : List Spot) (c : Category) : Nat :=
  (es.flatMap fun t => t.node.tariff).count c

theorem Spot.sum_cost_eq_price (f : Category → Int) (es : List Spot) :
    (es.map fun t => t.node.cost f).sum = Category.price f (tally es) := by
  have hsum : ((es.flatMap fun t => t.node.tariff).map f).sum =
      (es.map fun t => t.node.cost f).sum := by
    rw [List.map_flatMap, sum_flatMap]
    rfl
  rw [← hsum, Category.sum_map_eq_price]
  rfl

/-- Overriding by integers leaves integers. -/
theorem Weights.ints_of_override {w w' : Weights} {changes : List (String × Amount)}
    {f : Category → Int} (hw : ∀ c, w.get c = .int (f c))
    (hchanges : ∀ change ∈ changes, ∃ x, change.2 = .int x)
    (h : w.override changes = .ok w') : ∃ g : Category → Int, ∀ c, w'.get c = .int (g c) := by
  induction changes generalizing w f with
  | nil =>
      obtain rfl := Except.ok.inj h
      exact ⟨f, hw⟩
  | cons change changes ih =>
      obtain ⟨x, hx⟩ := hchanges change List.mem_cons_self
      have hrest : ∀ change ∈ changes, ∃ x, change.2 = .int x := fun d hd =>
        hchanges d (List.mem_cons_of_mem change hd)
      rw [override, List.foldlM_cons] at h
      cases hname : Category.ofName? change.1 with
      | none =>
          rw [hname] at h
          cases h
      | some c =>
          rw [hname] at h
          refine ih (f := fun d => if d = c then x else f d) (fun d => ?_) hrest h
          rw [get_set, hx, hw, apply_ite Amount.int]

/-! ## Outlines -/

/-- What is known of a record from the tree alone. -/
structure Outline where
  node : Node
  /-- The node that may give the scope its name. -/
  parent : Option Node
  depth : Nat
  location : Int
  signature : Node.Read String
  /-- The positions of the children among the records. -/
  children : List Nat
  /-- How often each category is charged to the scope itself. -/
  own : Category → Nat
  /-- How often each category is charged to the scope or to one inside it. -/
  inside : Category → Nat

/-- The outline of the scope opened at `v` by a walk from `place`. -/
def Place.outlineAt (place : Place) (v : Spot) : Outline where
  node := v.node
  parent := Session.namingNode? place.above v.visit
  depth := v.depth
  location := (v.scope place.above 0 [] Amount.zero).location
  signature := v.signature place.above
  children := (fallingInto v place.node.openings).map place.node.openings.idxOf
  own := tally (fallingInto v place.node.walked)
  inside := tally (Spot.inside v place.node.walked)

/-- The outlines of all records of a walk from `place`, in order. -/
def Place.outlines (place : Place) : List Outline := place.node.openings.map place.outlineAt

/-- The scope of this number is as the outline says, if the categories cost `f`. The records are
numbered from `base` on. -/
structure Store.Shows (s : Store) (base : ScopeId) (f : Category → Int) (id : ScopeId)
    (o : Outline) : Prop where
  scope : ∃ scope, s.get? id = some scope ∧ scope.node = o.node ∧ scope.parent = o.parent ∧
    scope.depth = o.depth ∧ scope.location = o.location ∧
    scope.children = o.children.map (base + ·) ∧
    scope.own = .int (Category.price f o.own)
  signature : s.signature id = o.signature.orFail
  score : s.score id = .ok (.int (Category.price f o.inside))

theorem Session.Mirrors.shows_number {w : Weights} {f : Category → Int} {place : Place}
    {old : Store} {s : Session} {v : Spot}
    (h : Mirrors w place.above old place.node.walked place.node.openings none s)
    (hf : ∀ c, w.get c = .int (f c)) (hv : v ∈ place.node.openings) :
    s.scopes.Shows old.size f (number old.size place.node.openings v) (place.outlineAt v) := by
  obtain ⟨own, htotal, hget⟩ := h.made v hv
  refine ⟨⟨_, hget, rfl, rfl, rfl, Scope.location_congr rfl, ?_, ?_⟩, h.signature_number hv, ?_⟩
  · show (fallingInto v place.node.openings).map (number old.size place.node.openings) =
      ((fallingInto v place.node.openings).map place.node.openings.idxOf).map (old.size + ·)
    rw [List.map_map]
    rfl
  · have hown := Except.ok.inj (htotal.symm.trans (total_charges_of_ints hf _))
    rw [sum_cost_eq_price] at hown
    exact hown
  · rw [h.score_number hf hv, Node.costInside, sum_cost_eq_price]
    rfl

namespace Analyzer

/-- With integer weights and room in the recorder, the records of a run show the outlines of the
tree. -/
theorem analyze_shows (a : Analyzer) (place : Place) (r : Recorder) (h : History)
    {f : Category → Int} (ints : ∀ c, a.weights.get c = .int (f c))
    (room : r.HasRoom place.outlines.length) :
    (a.analyze (some place) r h).failure = none ∧
    (a.analyze (some place) r h).recorder.records =
      r.records ++ List.range' h.scopes.size place.outlines.length ∧
    ∀ (k : Nat) (o : Outline), place.outlines[k]? = some o →
      (a.analyze (some place) r h).history.scopes.Shows h.scopes.size f (h.scopes.size + k) o := by
  have hlength : place.outlines.length = place.node.openings.length := List.length_map ..
  rw [hlength] at room ⊢
  obtain ⟨s, hmirror, hrun⟩ := a.analyze_completes_of_ints place r h ints room
  rw [hrun]
  refine ⟨rfl, congrArg (r.records ++ ·) (Node.map_number_openings ..), ?_⟩
  intro k o ho
  rw [Place.outlines, List.getElem?_map] at ho
  obtain ⟨v, hv, rfl⟩ := Option.map_eq_some_iff.1 ho
  have hshows := hmirror.shows_number ints (List.mem_of_getElem? hv)
  rwa [Node.number_of_getElem? hv] at hshows

/-- **Weights act linearly on scores and on nothing else.** Whatever integers the weights of an
analyzer are, and overriding the default weights by integers makes no others, a run on a recorder
with room does not fail, and its records show the outlines of the tree. So their nodes, names,
depths, locations and children are the same for all weights, and the score of each, as well as its
own penalty, is a sum of the four weights with coefficients that the tree alone decides. -/
theorem weights_act_linearly (place : Place) :
    (∀ (changes : List (String × Amount)) (w : Weights), Weights.ofOverrides changes = .ok w →
      (∀ change ∈ changes, ∃ x, change.2 = .int x) →
      ∃ f : Category → Int, ∀ c, w.get c = .int (f c)) ∧
    ∀ (a : Analyzer) (r : Recorder) (h : History) (f : Category → Int),
      (∀ c, a.weights.get c = .int (f c)) → r.HasRoom place.outlines.length →
      let run := a.analyze (some place) r h
      run.failure = none ∧
      run.recorder.records =
        r.records ++ List.range' h.scopes.size place.outlines.length ∧
      ∀ (k : Nat) (o : Outline), place.outlines[k]? = some o →
        run.history.scopes.Shows h.scopes.size f (h.scopes.size + k) o := by
  refine ⟨?_, ?_⟩
  · intro changes w hw hchanges
    exact Weights.ints_of_override Weights.get_default_int hchanges hw
  · intro a r h f ints room
    exact a.analyze_shows place r h ints room

/-- With other weights the sample has the same two records, and the first scores two branches, a
function and two calls. -/
theorem weights_sampleTree :
    ∃ w, Weights.ofOverrides [("call", .int 1000), ("branch", .int 7)] = .ok w ∧
      let run := ({ weights := w } : Analyzer).analyze (some (Place.top sampleTree))
        Recorder.unlimited {}
      run.recorder.records = [0, 1] ∧
      run.history.scopes.score 0 = .ok (.int (2 * 7 + 0 * 1 + 1 * 3 + 2 * 1000)) := by
  have hw : Weights.ofOverrides [("call", .int 1000), ("branch", .int 7)] =
      .ok { branch := .int 7, call := .int 1000 } := rfl
  obtain ⟨hints, hruns⟩ := weights_act_linearly (Place.top sampleTree)
  obtain ⟨f, hf⟩ := hints _ _ hw (by simp)
  obtain ⟨-, hrecords, hshows⟩ := hruns { weights := _ } Recorder.unlimited {} f hf
    (Recorder.hasRoom_unlimited _)
  refine ⟨_, hw, hrecords, (hshows 0 _ rfl).score.trans ?_⟩
  have hprices : f .branch = 7 ∧ f .branchEmpty = 1 ∧ f .fn = 3 ∧ f .call = 1000 :=
    ⟨(Amount.int.inj (hf .branch)).symm, (Amount.int.inj (hf .branchEmpty)).symm,
      (Amount.int.inj (hf .fn)).symm, (Amount.int.inj (hf .call)).symm⟩
  obtain ⟨hbranch, hempty, hfn, hcall⟩ := hprices
  rw [Category.price, hbranch, hempty, hfn, hcall]
  rfl

end Analyzer

end ScopeScore
