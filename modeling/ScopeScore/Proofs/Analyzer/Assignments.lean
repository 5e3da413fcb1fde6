import ScopeScore.Proofs.Scope.Chains
import ScopeScore.Proofs.Tree.Notices
import ScopeScore.Proofs.Tree.Parentheses

set_option autoImplicit false

/-! # Functions that are assigned

A function without a name of its own gets that of the target which it is assigned to. It may stand
in parentheses: a walk goes through them (`Node.exists_spot_inParens`), and they are no target.

* `Scope.signature_of_assigned`: the signature of such a function.
* **`Analyzer.chains_name_functions`**: the path of a chain of members, and that a function assigned
  to it is recorded under that path.
-/

namespace ScopeScore

open Spot

/-! ## Ways through parentheses -/

/-- A walk that comes to parentheses comes to what is in them. -/
theorem Node.exists_spot_inParens {n fn : Node} {s : Spot} (hs : s ∈ n.walked) (ps : List Parens)
    (hnamed : fn.named = true) (hmem : fn.inParens ps ∈ s.node.children) :
    ∃ v ∈ n.walked, v.node = fn ∧
      v.above.map Spot.node = fn.parensAround ps ++ s.upward.map Spot.node := by
  induction ps generalizing fn with
  | nil =>
      obtain ⟨i, hi⟩ := List.mem_iff_getElem?.1 hmem
      exact ⟨.under s i fn, mem_walked_iff.2 (.under (mem_walked_iff.1 hs) hi hnamed), rfl, rfl⟩
  | cons p ps ih =>
      have hpair : (p.around fn).named = true := p.named
      obtain ⟨u, hu, hnode, habove⟩ := ih hpair hmem
      -- the pair of parentheses is at `u`, and the node is its only named child
      have hchild : u.node.children[p.opening.length]? = some fn := by
        rw [hnode]
        show (p.opening ++ fn :: p.closing)[p.opening.length]? = some fn
        rw [List.getElem?_append_right (Nat.le_refl _), Nat.sub_self]
        rfl
      refine ⟨.under u p.opening.length fn,
        mem_walked_iff.2 (.under (mem_walked_iff.1 hu) hchild hnamed), rfl, ?_⟩
      rw [above_under, upward, List.map_cons, hnode, habove]
      rfl

/-! ## Names of assigned functions -/

theorem Spot.namingNode?_of_inParens {v : Spot} {outer rest : List Node} {fn t : Node}
    {ps : List Parens} (habove : v.above.map Spot.node = fn.parensAround ps ++ t :: rest)
    (ht : t.kind ≠ Kind.parenthesizedExpression) :
    Session.namingNode? outer v.visit = some t := by
  have htarget : t.isNoParens = true := bne_iff_ne.2 ht
  have hpath : v.visit.path = fn.parensAround ps ++ t :: rest := habove
  have hfind : (v.visit.path ++ outer).find? Node.isNoParens = some t := by
    rw [hpath, List.append_assoc, List.find?_append, Node.find?_parensAround, Option.none_or,
      List.cons_append, List.find?_cons_of_pos htarget]
  unfold Session.namingNode?
  split
  · next hnil =>
      rw [hpath] at hnil
      simp at hnil
  · exact hfind

section Names

variable {s : Scope} {t target : Node} {name : String}

theorem Scope.ownName?_of_unnamed
    (hunnamed : ∀ c ∈ s.node.child? "name", c.kind.isIdentifier = false) :
    s.ownName? = .ok none := by
  rw [ownName?]
  cases hname : s.node.child? "name" with
  | none => rfl
  | some c =>
      exact Node.identifierName?_of_not_isIdentifier (Bool.eq_false_iff.1 (hunnamed c hname))

/-- **A function without a name is called as the target that it is assigned to.** -/
theorem Scope.signature_of_assigned (hfunction : s.node.kind.isFunction = true)
    (hunnamed : ∀ c ∈ s.node.child? "name", c.kind.isIdentifier = false)
    (hparent : s.parent = some t) (ht : t.kind = Kind.assignmentExpression)
    (hleft : t.child? "left" = some target)
    (hname : targetName? target = .ok (some name)) : s.signature = .ok name := by
  have hprogram : s.isProgram = false := by
    refine beq_false_of_ne fun hkind => ?_
    rw [hkind] at hfunction
    exact absurd hfunction (by decide)
  have hdeclared : ¬ (t.kind == Kind.variableDeclarator) = true := by
    rw [ht]
    decide
  have hvariable : s.variableName? = .ok none := by
    rw [variableName?, hparent]
    exact if_neg hdeclared
  have hassigned : s.assignedName? = .ok (some name) := by
    rw [assignedName?, hparent]
    show (if t.kind == Kind.assignmentExpression then _ else _) = _
    rw [if_pos (beq_iff_eq.2 ht), hleft]
    exact hname
  rw [signature, hprogram, if_neg Bool.false_ne_true, functionName?,
    ownName?_of_unnamed hunnamed, hvariable, hassigned]
  rfl

end Names

namespace Analyzer

/-- **Chains of members name functions.** A member node whose texts can be read has one chain of
member nodes down to its base. Its path has a segment for the base and one for each member node of
the chain, the innermost first.

So take any base and any links, at least one unless the base is a name, and write them as a chain.
Let a function without a name be assigned to it, in any number of parentheses, and let a run come to
the assignment. If there is room in the recorder and no addition of penalties fails, the run does
not fail, and it records the function under the texts of the base and of the links, with points
between them. -/
theorem chains_name_functions :
    (∀ m : Node, m.kind.isMember = true → m.Legible →
      ∃ ms : List Node, m.ChainOf ms ∧ (∀ ms', m.ChainOf ms' → ms' = ms) ∧
        ∃ path, m.memberPath = .ok path ∧ path.length = ms.length + 1 ∧
          path = Node.baseText (Node.baseOf ms) :: (ms.map Node.segmentText).reverse) ∧
    ∀ (base : Chain.Base) (links : List Chain.Link), (links = [] → base.IsName) →
      ∀ (fn t : Node) (ps : List Parens), fn.kind.isFunction = true → fn.named = true →
        (∀ c ∈ fn.child? "name", c.kind.isIdentifier = false) →
        t.kind = Kind.assignmentExpression → t.child? "left" = Chain.node? "left" base links →
        t.child? "right" = some (fn.inParens ps) →
        ∀ (a : Analyzer) (place : Place) (r : Recorder) (h : History),
          r.HasRoom place.node.openings.length →
          (∀ v ∈ place.node.openings, ∃ sum,
            Amount.total (charges a.weights (fallingInto v place.node.walked)) = .ok sum) →
          (∃ s ∈ place.node.walked, s.node = t) →
          let run := a.analyze (some place) r h
          run.failure = none ∧ ∃ id ∈ run.recorder.records, ∃ scope,
            run.history.scopes.get? id = some scope ∧ scope.node = fn ∧ scope.parent = some t ∧
            run.history.scopes.signature id =
              .ok (".".intercalate (base.text :: links.map Chain.Link.text)) := by
  constructor
  · intro m hm hlegible
    have hms := Node.chainOf_chain m hm
    refine ⟨m.chain, hms, fun ms' hms' => hms.unique hms', _, hms.memberPath_eq hlegible, ?_, rfl⟩
    rw [List.length_cons, List.length_reverse, List.length_map]
  · intro base links hlinks fn t ps hfunction hnamed hunnamed ht hleft hright a place r h room
      sums hspot run
    obtain ⟨s, hs, rfl⟩ := hspot
    -- the spot of the function, below that of the assignment
    obtain ⟨v, hv, hnode, habove⟩ := Node.exists_spot_inParens hs ps hnamed
      (List.mem_of_find?_eq_some hright)
    have hopening : v ∈ place.node.openings := by
      refine mem_scopesAmong.2 ⟨hv, ?_⟩
      rw [isScope, hnode]
      exact (Kind.isScope_iff _).2 (Or.inl hfunction)
    have hnaming : Session.namingNode? place.above v.visit = some s.node := by
      refine namingNode?_of_inParens habove ?_
      rw [ht]
      decide
    obtain ⟨target, htarget, hname⟩ := Chain.exists_targetName?_eq "left" hlinks
    have hsignature := Scope.signature_of_assigned (s := v.scope place.above 0 [] Amount.zero)
      (by rwa [Spot.scope, hnode]) (by rwa [Spot.scope, hnode]) hnaming ht
      (hleft.trans htarget) hname
    -- what is read off the tree is what the store has
    obtain ⟨last, hmirror, hrun⟩ := a.analyze_completes place r h room sums
    obtain ⟨own, -, hget⟩ := hmirror.made v hopening
    have hstore : run.history.scopes = last.scopes := congrArg (fun run => run.history.scopes) hrun
    have hrecords : run.recorder.records =
        r.records ++ place.node.openings.map (number h.scopes.size place.node.openings) :=
      congrArg (fun run => run.recorder.records) hrun
    refine ⟨congrArg Analysis.failure hrun, number h.scopes.size place.node.openings v, ?_,
      _, hstore ▸ hget, hnode, hnaming, ?_⟩
    · rw [hrecords]
      exact List.mem_append_right _ (List.mem_map_of_mem hopening)
    · rw [hstore, hmirror.signature_number hopening, Spot.signature, hsignature]
      rfl

/-- The links of `this['a b'].x[0][y()]`. -/
def sampleLinks : List Chain.Link :=
  [⟨.bracket, .string ["a", " b"]⟩, ⟨.dot, .identifier "property_identifier" "x" rfl⟩,
    ⟨.bracket, .number "0"⟩, ⟨.bracket, .other "call_expression" none [] (by decide)⟩]

/-- An assignment to these, with a function in two pairs of parentheses. -/
def sampleAssignment : Node :=
  let token (kind : Kind) : Node :=
    .node { id := 1, kind, named := false, field := none, row := 0, text := none } []
  let pair (field : Option String) : Parens :=
    { label := { id := 2, kind := Kind.parenthesizedExpression, named := true, field, row := 0,
                 text := none }
      opening := [token "("], closing := [token ")"], kind := rfl, named := rfl
      tokens := by simp [token, Node.named, Node.label] }
  Chain.held none Kind.assignmentExpression none
    ((Chain.node? "left" .this sampleLinks).toList ++
      [token "=", (Chain.held none "function_expression" none []).inParens
        [pair none, pair (some "right")]])

/-- A program with the assignment. -/
def assignedTree : Node :=
  Chain.held none Kind.program none [Chain.held none "expression_statement" none [sampleAssignment]]

/-- The target of the sample has a chain of four member nodes, and the function is called by their
texts and that of the base. -/
theorem signature_assignedTree :
    let run := ({} : Analyzer).analyze (some (Place.top assignedTree)) Recorder.unlimited {}
    (∃ m ms, sampleAssignment.child? "left" = some m ∧ m.ChainOf ms ∧ ms.length = 4) ∧
    run.failure = none ∧ ∃ id ∈ run.recorder.records, ∃ scope,
      run.history.scopes.get? id = some scope ∧ scope.node.kind = "function_expression" ∧
      run.history.scopes.signature id = .ok "this.a b.x.0.?" := by
  intro run
  obtain ⟨hpaths, hnames⟩ := chains_name_functions
  constructor
  · obtain ⟨m, hm⟩ : ∃ m, Chain.node? "left" .this sampleLinks = some m := ⟨_, rfl⟩
    have hread := Chain.objectPath_node? "left" .this sampleLinks
    have hmember : m.kind.isMember = true := by
      obtain rfl := Option.some.inj hm
      rfl
    have hlegible : m.Legible := by
      obtain rfl := Option.some.inj hm
      decide +kernel
    obtain ⟨ms, hms, -, path, hpath, hlength, -⟩ := hpaths m hmember hlegible
    rw [hm, Node.objectPath, if_pos hmember, hpath] at hread
    have hfive : path.length = 5 := congrArg List.length (Except.ok.inj hread)
    exact ⟨m, ms, hm, hms, by omega⟩
  · obtain ⟨hfailure, id, hid, scope, hget, hnode, -, hsignature⟩ := hnames .this sampleLinks
      (fun h => by cases h) (Chain.held none "function_expression" none []) sampleAssignment _
      (by decide) rfl (fun c hc => by cases hc) rfl rfl rfl {} (Place.top assignedTree)
      Recorder.unlimited {} (Recorder.hasRoom_unlimited _)
      (fun v _ => ⟨_, total_charges_of_ints Weights.get_default_int _⟩)
      ⟨_, List.mem_of_getElem? (i := 2) rfl, rfl⟩
    exact ⟨hfailure, id, hid, scope, hget, congrArg Node.kind hnode, hsignature⟩

end Analyzer

end ScopeScore
