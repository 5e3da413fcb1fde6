import ScopeScore.Proofs.Analyzer.Stack

set_option autoImplicit false

/-! # The scopes of all runs are a forest

Scopes are linked by numbers, and nothing in a store keeps these numbers from running in a circle.
That they do not is a matter of how runs make them: a scope becomes a child once, when it is opened,
of a scope that was opened before.

* `Store.IsForest`: a child comes after its parent and is one deeper, and it has one parent.
* `Session.Sound`: the scopes are a forest, and those on the stack are as deep as they stand there.
  Every call keeps it so, whether it fails or not.

**`Analyzer.isForest_analyze`** says it of runs. In a forest scores need no bound on the nesting:
`Store.IsForest.score_eq` is the equation that the bound stands in the way of.
-/

namespace ScopeScore

open Call

/-! ## Forests -/

namespace Store

/-- The depth of the scope of this number, if there is one. -/
def depthOf? (s : Store) (id : ScopeId) : Option Int := (s.get? id).map Scope.depth

/-- The links from scopes to their children make a forest. -/
structure IsForest (s : Store) : Prop where
  /-- A child is a scope opened after its parent, and is one deeper. -/
  child : ∀ {id c : ScopeId}, c ∈ s.childrenOf id →
    id < c ∧ ∃ depth, s.depthOf? id = some depth ∧ s.depthOf? c = some (depth + 1)
  /-- A scope has one parent at most. -/
  parent : ∀ {id id' c : ScopeId}, c ∈ s.childrenOf id → c ∈ s.childrenOf id' → id = id'
  /-- A scope is a child of its parent once. -/
  once : ∀ id, (s.childrenOf id).Nodup

theorem get?_eq_none_of_le {s : Store} {id : ScopeId} (h : s.size ≤ id) : s.get? id = none :=
  Array.getElem?_eq_none h

theorem lt_size_of_depthOf? {s : Store} {id : ScopeId} {depth : Int}
    (h : s.depthOf? id = some depth) : id < s.size := by
  by_contra hle
  rw [depthOf?, get?_eq_none_of_le (Nat.not_lt.1 hle)] at h
  cases h

theorem childrenOf_eq_nil_of_le {s : Store} {id : ScopeId} (h : s.size ≤ id) :
    s.childrenOf id = [] := by
  rw [childrenOf, get?_eq_none_of_le h]
  rfl

theorem isForest_empty : ({} : Store).IsForest := by
  have hnone : ∀ id, ({} : Store).childrenOf id = [] := fun id =>
    childrenOf_eq_nil_of_le (Nat.zero_le id)
  refine ⟨?_, ?_, ?_⟩
  · intro id c hc
    rw [hnone] at hc
    cases hc
  · intro id id' c hc
    rw [hnone] at hc
    cases hc
  · intro id
    rw [hnone]
    exact List.nodup_nil

namespace IsForest

variable {s : Store}

theorem child_lt_size (h : s.IsForest) {id c : ScopeId} (hc : c ∈ s.childrenOf id) :
    c < s.size := by
  obtain ⟨-, depth, -, hdepth⟩ := h.child hc
  exact lt_size_of_depthOf? hdepth

/-- What keeps depths and children keeps a forest. -/
theorem congr (h : s.IsForest) {s' : Store} (hchildren : ∀ id, s'.childrenOf id = s.childrenOf id)
    (hdepth : ∀ id, s'.depthOf? id = s.depthOf? id) : s'.IsForest := by
  refine ⟨?_, ?_, ?_⟩
  · intro id c hc
    rw [hchildren] at hc
    rw [hdepth, hdepth]
    exact h.child hc
  · intro id id' c hc hc'
    rw [hchildren] at hc hc'
    exact h.parent hc hc'
  · intro id
    rw [hchildren]
    exact h.once id

/-! ## Scores in a forest -/

/-- A child has a larger number, so any bound will do that reaches from a scope to the end of the
store. -/
theorem scoreWithin_eq_scoreWithin (h : s.IsForest) (bound : Nat) :
    ∀ (bound' id : Nat), id < s.size → s.size ≤ id + bound → s.size ≤ id + bound' →
      s.scoreWithin bound id = s.scoreWithin bound' id := by
  induction bound with
  | zero =>
      intro bound' id hid hbound
      omega
  | succ bound ih =>
      intro bound' id hid hbound hbound'
      obtain ⟨bound', rfl⟩ : ∃ b, bound' = b + 1 := ⟨bound' - 1, by omega⟩
      cases hget : s.get? id with
      | none => simp only [scoreWithin, hget]
      | some scope =>
          have hinner : Amount.sumOf (s.scoreWithin bound) scope.children =
              Amount.sumOf (s.scoreWithin bound') scope.children := by
            refine Amount.sumOf_congr fun c hc => ?_
            have hmem : c ∈ s.childrenOf id := by
              rw [childrenOf, hget]
              exact hc
            have hlt : id < c := (h.child hmem).1
            have hsize : c < s.size := h.child_lt_size hmem
            exact ih bound' c hsize (by omega) (by omega)
          simp only [scoreWithin, hget, hinner]

/-- **The score of a scope is its own penalty plus the scores of its children**, without a bound. -/
theorem score_eq (h : s.IsForest) {id : ScopeId} {scope : Scope} (hget : s.get? id = some scope) :
    s.score id = (do scope.own.add (← Amount.sumOf s.score scope.children)) := by
  have hid : id < s.size := (Array.getElem?_eq_some_iff.1 hget).1
  have hone : s.size ≤ id + (s.size + 1) := by omega
  have hmore : s.score id = s.scoreWithin (s.size + 1) id :=
    h.scoreWithin_eq_scoreWithin s.size _ id hid (Nat.le_add_left ..) hone
  rw [hmore, scoreWithin, hget]
  rfl

/-- No scope contains itself. -/
theorem score_ne_endless (h : s.IsForest) {id : Nat} (hid : id < s.size) :
    s.score id ≠ .error .endlessNesting := by
  -- from the last scope to the first, since children come after their parents
  have hall : ∀ gap id : Nat, id < s.size → s.size ≤ id + gap →
      s.score id ≠ .error .endlessNesting := by
    intro gap
    induction gap with
    | zero =>
        intro id hid hgap
        omega
    | succ gap ih =>
        intro id hid hgap herror
        obtain ⟨scope, hget⟩ : ∃ scope, s.get? id = some scope :=
          ⟨_, Array.getElem?_eq_getElem hid⟩
        rw [h.score_eq hget] at herror
        cases hinner : Amount.sumOf s.score scope.children with
        | ok inner =>
            rw [hinner] at herror
            cases Amount.eq_tooLarge_of_add herror
        | error e =>
            rw [hinner] at herror
            obtain rfl : e = .endlessNesting := Except.error.inj herror
            rcases Amount.sumOf_eq_error hinner with hlarge | ⟨c, hc, hchild⟩
            · cases hlarge
            · have hmem : c ∈ s.childrenOf id := by
                rw [childrenOf, hget]
                exact hc
              have hlt : id < c := (h.child hmem).1
              exact ih c (h.child_lt_size hmem) (by omega) hchild
  exact hall s.size id hid (Nat.le_add_left ..)

end IsForest

end Store

/-! ## Every call keeps the forest -/

namespace Session

/-- The scopes are a forest, and those on the stack are as deep as they stand there. -/
structure Sound (s : Session) : Prop where
  forest : s.scopes.IsForest
  depth : ∀ id rest, id :: rest <:+ s.stack → s.scopes.depthOf? id = some (rest.length : Int)

namespace Sound

variable {s : Session}

theorem depth_context (h : s.Sound) {id : ScopeId} {rest : List ScopeId}
    (hstack : s.stack = id :: rest) : s.scopes.depthOf? id = some (rest.length : Int) := by
  have hsuffix : id :: rest <:+ s.stack := ⟨[], hstack.symm⟩
  exact h.depth id rest hsuffix

theorem context_lt (h : s.Sound) {id : ScopeId} (hc : s.context? = some id) :
    id < s.scopes.size := by
  obtain ⟨rest, hrest⟩ := List.head?_eq_some_iff.1 hc
  exact Store.lt_size_of_depthOf? (h.depth_context hrest)

theorem setOwn (h : s.Sound) (id : ScopeId) (own : Amount) : (s.setOwn id own).Sound := by
  have hsame : ∀ {β : Type} (g : Scope → β), (∀ x : Scope, g { x with own := own } = g x) →
      ∀ i, ((s.setOwn id own).scopes.get? i).map g = (s.scopes.get? i).map g := by
    intro β g hg i
    rw [get?_setOwn]
    by_cases hi : i = id
    · rw [if_pos hi, hi, Option.map_map]
      exact congrArg (Option.map · (s.scopes.get? id)) (funext hg)
    · rw [if_neg hi]
  have hdepth : ∀ i, (s.setOwn id own).scopes.depthOf? i = s.scopes.depthOf? i :=
    hsame Scope.depth fun _ => rfl
  have hchildren : ∀ i, (s.setOwn id own).scopes.childrenOf i = s.scopes.childrenOf i := by
    intro i
    rw [Store.childrenOf, Store.childrenOf, hsame Scope.children fun _ => rfl]
  refine ⟨h.forest.congr hchildren hdepth, ?_⟩
  intro i rest hi
  rw [hdepth]
  exact h.depth i rest hi

variable (outer : List Node) (v : Visit)

theorem depthOf?_openScope (h : s.Sound) (id : ScopeId) :
    (s.openScope outer v).scopes.depthOf? id =
      if id = s.scopes.next then some (s.stack.length : Int) else s.scopes.depthOf? id := by
  rcases Nat.lt_trichotomy id s.scopes.size with hlt | heq | hgt
  · have hne : id ≠ s.scopes.next := Nat.ne_of_lt hlt
    rw [Store.depthOf?, get?_openScope_of_lt outer v hlt, if_neg hne]
    by_cases hc : s.context? = some id
    · rw [if_pos hc, Option.map_map]
      rfl
    · rw [if_neg hc]
      rfl
  · have hid : id = s.scopes.next := heq
    rw [if_pos hid, hid, Store.depthOf?, get?_openScope_next outer v fun p hp => h.context_lt hp]
    rfl
  · have hne : id ≠ s.scopes.next := Nat.ne_of_gt hgt
    have hsize : (s.openScope outer v).scopes.size ≤ id := by
      rw [size_scopes_openScope]
      exact hgt
    rw [if_neg hne, Store.depthOf?, Store.depthOf?, Store.get?_eq_none_of_le hsize,
      Store.get?_eq_none_of_le (Nat.le_of_lt hgt)]

theorem childrenOf_openScope (h : s.Sound) (id : ScopeId) :
    (s.openScope outer v).scopes.childrenOf id =
      s.scopes.childrenOf id ++ if s.context? = some id then [s.scopes.next] else [] := by
  by_cases hlt : id < s.scopes.size
  · rw [Store.childrenOf, get?_openScope_of_lt outer v hlt, Store.childrenOf]
    obtain ⟨scope, hget⟩ : ∃ scope, s.scopes.get? id = some scope :=
      ⟨_, Array.getElem?_eq_getElem hlt⟩
    by_cases hc : s.context? = some id
    · rw [if_pos hc, if_pos hc, hget]
      rfl
    · rw [if_neg hc, if_neg hc, List.append_nil]
  · have hc : s.context? ≠ some id := fun hc => hlt (h.context_lt hc)
    rw [if_neg hc, Store.childrenOf_eq_nil_of_le (Nat.not_lt.1 hlt), List.append_nil]
    -- the new scope has no children, and after it there is none
    rcases Nat.lt_or_eq_of_le (Nat.not_lt.1 hlt) with hgt | heq
    · refine Store.childrenOf_eq_nil_of_le ?_
      rw [size_scopes_openScope]
      exact hgt
    · have hid : id = s.scopes.next := heq.symm
      rw [hid, Store.childrenOf, get?_openScope_next outer v fun p hp => h.context_lt hp]
      rfl

theorem openScope (h : s.Sound) : (s.openScope outer v).Sound := by
  have hchildren := h.childrenOf_openScope outer v
  have hdepth := h.depthOf?_openScope outer v
  -- an old child is not the new scope
  have hold : ∀ {id c : ScopeId}, c ∈ s.scopes.childrenOf id → c ≠ s.scopes.next := fun hc =>
    Nat.ne_of_lt (h.forest.child_lt_size hc)
  have hcases : ∀ {id c : ScopeId}, c ∈ (s.openScope outer v).scopes.childrenOf id →
      c ∈ s.scopes.childrenOf id ∨ c = s.scopes.next ∧ s.context? = some id := by
    intro id c hc
    rw [hchildren, List.mem_append] at hc
    rcases hc with hc | hc
    · exact Or.inl hc
    · by_cases hctx : s.context? = some id
      · rw [if_pos hctx] at hc
        exact Or.inr ⟨List.mem_singleton.1 hc, hctx⟩
      · rw [if_neg hctx] at hc
        cases hc
  refine ⟨⟨?_, ?_, ?_⟩, ?_⟩
  · intro id c hc
    rcases hcases hc with hc | ⟨rfl, hctx⟩
    · obtain ⟨hlt, depth, hid, hchild⟩ := h.forest.child hc
      have hne : id ≠ s.scopes.next := Nat.ne_of_lt (Store.lt_size_of_depthOf? hid)
      refine ⟨hlt, depth, ?_, ?_⟩
      · rw [hdepth, if_neg hne, hid]
      · rw [hdepth, if_neg (hold hc), hchild]
    · obtain ⟨rest, hrest⟩ := List.head?_eq_some_iff.1 hctx
      have hlt : id < s.scopes.next := h.context_lt hctx
      refine ⟨hlt, (rest.length : Int), ?_, ?_⟩
      · rw [hdepth, if_neg (Nat.ne_of_lt hlt)]
        exact h.depth_context hrest
      · rw [hdepth, if_pos rfl, hrest]
        rfl
  · intro id id' c hc hc'
    rcases hcases hc with hc | ⟨rfl, hctx⟩
    · rcases hcases hc' with hc' | ⟨rfl, -⟩
      · exact h.forest.parent hc hc'
      · exact absurd rfl (hold hc)
    · rcases hcases hc' with hc' | ⟨-, hctx'⟩
      · exact absurd rfl (hold hc')
      · exact Option.some.inj (hctx.symm.trans hctx')
  · intro id
    rw [hchildren]
    refine List.nodup_append'.2 ⟨h.forest.once id, ?_, ?_⟩
    · split
      · exact List.nodup_singleton _
      · exact List.nodup_nil
    · intro c hc hc'
      split at hc'
      · exact hold hc (List.mem_singleton.1 hc')
      · cases hc'
  · intro id rest hsuffix
    rw [stack_openScope] at hsuffix
    rcases List.suffix_cons_iff.1 hsuffix with heq | hsuffix
    · obtain ⟨rfl, rfl⟩ := List.cons.inj heq
      rw [hdepth, if_pos rfl]
    · have hid := h.depth id rest hsuffix
      have hne : id ≠ s.scopes.next := Nat.ne_of_lt (Store.lt_size_of_depthOf? hid)
      rw [hdepth, if_neg hne, hid]

theorem close (h : s.Sound) (n : Node) : (s.close n).Sound := by
  unfold Session.close
  split
  · exact ⟨h.forest, fun id rest hsuffix =>
      h.depth id rest (hsuffix.trans (List.tail_suffix s.stack))⟩
  · exact h

/-- Whether the recorder takes a scope or not, the scopes are the same. -/
theorem withRecorder (h : s.Sound) (r : Recorder) : ({ s with recorder := r } : Session).Sound :=
  ⟨h.forest, h.depth⟩

theorem perform (h : s.Sound) (w : Weights) (outer : List Node) (c : Call) :
    (Step.final (c.perform (Step.enter w outer) Step.leave) s).Sound := by
  cases c with
  | leave t => exact h.close t.node
  | enter t =>
      have hcharge : (Step.final (Step.chargeAll (t.visit.node.charge w)) s).Sound := by
        rcases Step.final_chargeAll (t.visit.node.charge w) s with heq | ⟨id, own, -, heq⟩
        · rw [heq]
          exact h
        · rw [heq]
          exact h.setOwn id own
      show (Step.final (Step.enter w outer t.visit) s).Sound
      rcases Step.final_enter_cases w outer t.visit s with heq | ⟨r, heq, -⟩
      · rw [heq]
        exact hcharge
      · rw [heq]
        exact (hcharge.openScope outer t.visit).withRecorder r

theorem makeAll (w : Weights) (outer : List Node) (cs : List Call) :
    ∀ {s : Session}, s.Sound → (Step.final (Step.makeAll w outer cs) s).Sound := by
  induction cs with
  | nil => exact fun h => h
  | cons c cs ih =>
      intro s h
      have hfirst := h.perform w outer c
      rcases Step.final_makeAll_cons w outer c cs s with heq | heq
      · rw [heq]
        exact hfirst
      · rw [heq]
        exact ih hfirst

end Sound

end Session

/-- **A run keeps the forest**, whether it fails or not. -/
theorem Analyzer.isForest_analyze (a : Analyzer) (tree : Option Place) (r : Recorder) {h : History}
    (hforest : h.scopes.IsForest) : (a.analyze tree r h).history.scopes.IsForest := by
  cases tree with
  | none => exact hforest
  | some place =>
      rw [(a.analyze_eq_final place r h).1]
      have hstart : (Session.starting r h).Sound :=
        ⟨hforest, fun id rest hsuffix => by cases List.suffix_nil.1 hsuffix⟩
      exact (Session.Sound.makeAll a.weights place.above place.node.calls hstart).forest

end ScopeScore
