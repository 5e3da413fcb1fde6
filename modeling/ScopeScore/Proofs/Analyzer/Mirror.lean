import ScopeScore.Proofs.Analyzer.Steps
import ScopeScore.Proofs.Tree.Calls

set_option autoImplicit false

/-! # A session mirrors the walk

At every point of an analysis the session can be read off the spots entered so far: which scopes
there are and what is known of each, and which of them are on the stack. `Session.Mirrors` says
this, and both visitors preserve it.

The scopes of a run are numbered in the order in which their spots are entered, from the first free
number on (`Spot.number`). A spot falls into the scope of the nearest spot above it that opens one
(`Spot.fallingInto`): the charges of the spots that fall into a scope make its own penalty, and
those of them that open a scope are its children.
-/

namespace ScopeScore

namespace Spot

/-- Those of the spots that open a scope. -/
def scopesAmong (es : List Spot) : List Spot := es.filter isScope

/-- Those of the spots that fall into the scope opened at `v` and into none inside it. -/
def fallingInto (v : Spot) (es : List Spot) : List Spot :=
  es.filter fun t => t.enclosing? = some v

/-- What some spots are charged, in order. -/
def charges (w : Weights) (es : List Spot) : List Amount :=
  es.flatMap fun t => t.node.tariff.map w.get

/-- The number of the scope opened at `v`, if scopes are opened at the spots `ss` one after the
other and the first of them gets the number `base`. -/
def number (base : ScopeId) (ss : List Spot) (v : Spot) : ScopeId := base + ss.idxOf v

/-- The scope opened at `v` with a penalty of its own, when scopes have been opened at the spots
`ss`. -/
def scope (outer : List Node) (base : ScopeId) (ss : List Spot) (own : Amount) (v : Spot) : Scope :=
  { node := v.node
    parent := Session.namingNode? outer v.visit
    depth := v.depth
    own := own
    children := (fallingInto v ss).map (number base ss) }

theorem fallingInto_append (v : Spot) (es fs : List Spot) :
    fallingInto v (es ++ fs) = fallingInto v es ++ fallingInto v fs :=
  List.filter_append ..

theorem fallingInto_singleton_of_eq {v t : Spot} (h : t.enclosing? = some v) :
    fallingInto v [t] = [t] := by
  simp [fallingInto, h]

theorem fallingInto_singleton_of_ne {v t : Spot} (h : t.enclosing? ≠ some v) :
    fallingInto v [t] = [] := by
  simp [fallingInto, h]

theorem mem_fallingInto {v t : Spot} {es : List Spot} :
    t ∈ fallingInto v es ↔ t ∈ es ∧ t.enclosing? = some v := by
  simp [fallingInto]

theorem mem_scopesAmong {t : Spot} {es : List Spot} :
    t ∈ scopesAmong es ↔ t ∈ es ∧ t.isScope = true :=
  List.mem_filter

theorem scopesAmong_append (es fs : List Spot) :
    scopesAmong (es ++ fs) = scopesAmong es ++ scopesAmong fs :=
  List.filter_append ..

theorem charges_singleton (w : Weights) (t : Spot) : charges w [t] = t.node.charge w := by
  rw [charges, List.flatMap_singleton, Node.charge_eq_tariff]

theorem charges_append (w : Weights) (es fs : List Spot) :
    charges w (es ++ fs) = charges w es ++ charges w fs :=
  List.flatMap_append

theorem number_lt {base : ScopeId} {ss : List Spot} {v : Spot} (hv : v ∈ ss) :
    number base ss v < base + ss.length :=
  Nat.add_lt_add_left (List.idxOf_lt_length_of_mem hv) base

theorem number_inj {base : ScopeId} {ss : List Spot} {u v : Spot} (hu : u ∈ ss)
    (h : number base ss u = number base ss v) : u = v :=
  (List.idxOf_inj hu).1 (Nat.add_left_cancel h)

/-- Opening further scopes changes no number. -/
theorem number_append {base : ScopeId} {ss : List Spot} {v : Spot} (hv : v ∈ ss)
    (rest : List Spot) : number base (ss ++ rest) v = number base ss v := by
  rw [number, number, List.idxOf_append_of_mem hv]

theorem number_append_self {base : ScopeId} {ss : List Spot} {t : Spot} (ht : t ∉ ss) :
    number base (ss ++ [t]) t = base + ss.length := by
  rw [number, List.idxOf_append_of_notMem ht]
  simp

theorem map_number_append {base : ScopeId} {ss us : List Spot} (hu : ∀ u ∈ us, u ∈ ss)
    (rest : List Spot) : us.map (number base (ss ++ rest)) = us.map (number base ss) :=
  List.map_congr_left fun u h => number_append (hu u h) rest

end Spot

/-- The spots at which a walk from `n` opens scopes, in order. -/
def Node.openings (n : Node) : List Spot := Spot.scopesAmong n.walked

open Spot Call

/-- **The session mirrors the walk.** Charges have come from the spots `es`, scopes have been opened
at the spots `ss`, and `cur` is the innermost spot entered and not yet left. The store held the
scopes `old` when the walk began. -/
structure Session.Mirrors (w : Weights) (outer : List Node) (old : Store) (es ss : List Spot)
    (cur : Option Spot) (s : Session) : Prop where
  /-- The stack holds the open scopes, the innermost first. -/
  stack : s.stack = ((openFrom cur).filter isScope).map (number old.size ss)
  /-- The open spots of scope kind have their scopes. -/
  opened : ∀ v ∈ openFrom cur, v.isScope = true → v ∈ ss
  /-- An open scope is the last child of the scope that it falls into. -/
  last : ∀ v ∈ openFrom cur, v.isScope = true → ∀ u, v.enclosing? = some u →
    (fallingInto u ss).getLast? = some v
  size : s.scopes.size = old.size + ss.length
  /-- Scopes of earlier walks are as they were. -/
  kept : ∀ id < old.size, s.scopes.get? id = old.get? id
  /-- Each scope of this walk has the sum of what fell into it, and its children. -/
  made : ∀ v ∈ ss, ∃ own, Amount.total (charges w (fallingInto v es)) = .ok own ∧
    s.scopes.get? (number old.size ss v) = some (v.scope outer old.size ss own)

namespace Session.Mirrors

variable {w : Weights} {outer : List Node} {old : Store} {es ss : List Spot} {t : Spot}
  {s s₁ : Session}

/-- A walk begins with nothing opened. -/
theorem start (w : Weights) (outer : List Node) (s : Session) (hs : s.stack = []) :
    Mirrors w outer s.scopes [] [] none s where
  stack := hs
  opened := by simp [openFrom]
  last := by simp [openFrom]
  size := rfl
  kept := fun _ _ => rfl
  made := by simp

/-- Before a spot is entered, the innermost scope is that of the nearest spot above it that opens
one. -/
theorem context?_eq (h : Mirrors w outer old es ss t.parent? s) :
    s.context? = t.enclosing?.map (number old.size ss) := by
  rw [context?, h.stack, openFrom_parent?, List.head?_map, List.head?_filter]
  rfl

theorem mem_of_enclosing? (h : Mirrors w outer old es ss t.parent? s) {v : Spot}
    (hv : t.enclosing? = some v) : v ∈ ss :=
  h.opened v (by rw [openFrom_parent?]; exact mem_above_of_enclosing? hv)
    (isScope_of_enclosing? hv)

/-! ## Charging a spot -/

/-- Charging a spot keeps the mirror, now with that spot. -/
theorem charge (h : Mirrors w outer old es ss t.parent? s)
    (hrun : (Step.chargeAll (t.node.charge w)).run s = .ok () s₁) :
    Mirrors w outer old (es ++ [t]) ss t.parent? s₁ ∧ s₁.recorder = s.recorder := by
  have hctx := h.context?_eq
  cases henc : t.enclosing? with
  | none =>
      -- outside every scope the charges are dropped, and the spot falls into none
      rw [henc, Option.map_none] at hctx
      rw [Step.chargeAll_of_no_context _ hctx] at hrun
      obtain ⟨-, rfl⟩ := EStateM.Result.ok.inj hrun
      refine ⟨{ h with made := ?_ }, rfl⟩
      intro u hu
      rw [fallingInto_append, fallingInto_singleton_of_ne (by simp [henc]), List.append_nil]
      exact h.made u hu
  | some v =>
      rw [henc, Option.map_some] at hctx
      have hv : v ∈ ss := h.mem_of_enclosing? henc
      obtain ⟨own, htotal, hget⟩ := h.made v hv
      -- the charges continue the sum of the scope at `v`, and no other scope changes
      obtain ⟨own', hadd, rfl⟩ := (Step.chargeAll_eq_ok_iff hctx hget).1 hrun
      refine ⟨⟨h.stack, h.opened, h.last, ?_, ?_, ?_⟩, rfl⟩
      · rw [size_scopes_setOwn, h.size]
      · intro id hid
        have hne : id ≠ number old.size ss v := by
          unfold number
          omega
        rw [get?_setOwn, if_neg hne, h.kept id hid]
      · intro u hu
        rw [fallingInto_append, charges_append, get?_setOwn]
        by_cases huv : u = v
        · subst huv
          refine ⟨own', ?_, ?_⟩
          · rw [fallingInto_singleton_of_eq henc]
            refine Amount.foldlM_add_append.2 ⟨own, htotal, ?_⟩
            rwa [charges_singleton]
          · rw [if_pos rfl, hget]
            rfl
        · have hne : number old.size ss u ≠ number old.size ss v := fun e => huv (number_inj hu e)
          have henc' : t.enclosing? ≠ some u := by
            rw [henc]
            exact fun e => huv (Option.some.inj e).symm
          rw [fallingInto_singleton_of_ne henc', if_neg hne]
          simpa [charges] using h.made u hu

/-- Charging a spot succeeds if what then has fallen into its scope has a sum. -/
theorem charge_total (h : Mirrors w outer old es ss t.parent? s)
    (hsum : ∀ v, t.enclosing? = some v →
      ∃ own, Amount.total (charges w (fallingInto v (es ++ [t]))) = .ok own) :
    ∃ s₁, (Step.chargeAll (t.node.charge w)).run s = .ok () s₁ := by
  have hctx := h.context?_eq
  cases henc : t.enclosing? with
  | none =>
      rw [henc, Option.map_none] at hctx
      exact ⟨s, Step.chargeAll_of_no_context _ hctx⟩
  | some v =>
      rw [henc, Option.map_some] at hctx
      obtain ⟨own, htotal, hget⟩ := h.made v (h.mem_of_enclosing? henc)
      obtain ⟨own', hsum⟩ := hsum v henc
      rw [fallingInto_append, fallingInto_singleton_of_eq henc, charges_append] at hsum
      obtain ⟨mid, hmid, hrest⟩ := Amount.foldlM_add_append.1 hsum
      obtain rfl : own = mid := Except.ok.inj (htotal.symm.trans hmid)
      refine ⟨s.setOwn (number old.size ss v) own', ?_⟩
      refine (Step.chargeAll_eq_ok_iff hctx hget).2 ⟨own', ?_, rfl⟩
      rwa [charges_singleton] at hrest

/-! ## Opening and closing a scope -/

/-- A spot that opens no scope changes what is open, and nothing else. -/
theorem pass (h : Mirrors w outer old es ss t.parent? s) (ht : t.isScope = false) :
    Mirrors w outer old es ss (some t) s := by
  have hopen : (openFrom (some t)).filter isScope = (openFrom t.parent?).filter isScope := by
    rw [openFrom_parent?]
    simp [openFrom, upward, ht]
  have hmem : ∀ v ∈ openFrom (some t), v.isScope = true → v ∈ openFrom t.parent? := by
    intro v hv hscope
    have hv' : v ∈ (openFrom t.parent?).filter isScope := by
      rw [← hopen]
      exact List.mem_filter.2 ⟨hv, hscope⟩
    exact (List.mem_filter.1 hv').1
  exact { h with
    stack := by rw [h.stack, hopen]
    opened := fun v hv hscope => h.opened v (hmem v hv hscope) hscope
    last := fun v hv hscope => h.last v (hmem v hv hscope) hscope }

/-- The next scope gets the number that its spot has among all those opened. -/
theorem next_eq_number (h : Mirrors w outer old es ss t.parent? s) (hnew : t ∉ ss) :
    s.scopes.next = number old.size (ss ++ [t]) t := by
  rw [number_append_self hnew]
  exact h.size

/-- Opening a scope leaves the scopes of earlier walks alone. -/
theorem kept_openScope (h : Mirrors w outer old es ss t.parent? s) {id : Nat}
    (hid : id < old.size) : (s.openScope outer t.visit).scopes.get? id = old.get? id := by
  have hlt : id < s.scopes.size := by
    rw [h.size]
    omega
  have hne : s.context? ≠ some id := by
    rw [h.context?_eq]
    intro e
    obtain ⟨v, -, hv⟩ := Option.map_eq_some_iff.1 e
    have hv' : old.size + ss.idxOf v = id := hv
    omega
  rw [get?_openScope_of_lt _ _ hlt, if_neg hne, h.kept id hid]

/-- Opening a scope at `t` gives a child to the scope that `t` falls into, and leaves the others of
this walk alone. -/
theorem get?_openScope_older (h : Mirrors w outer old es ss t.parent? s) (hnew : t ∉ ss) {u : Spot}
    {own : Amount} (hu : u ∈ ss)
    (hget : s.scopes.get? (number old.size ss u) = some (u.scope outer old.size ss own)) :
    (s.openScope outer t.visit).scopes.get? (number old.size (ss ++ [t]) u) =
      some (u.scope outer old.size (ss ++ [t]) own) := by
  have hlt : number old.size ss u < s.scopes.size := by
    rw [h.size]
    exact number_lt hu
  have hchild : ∀ x ∈ fallingInto u ss, x ∈ ss := fun x hx => (mem_fallingInto.1 hx).1
  rw [number_append hu, get?_openScope_of_lt _ _ hlt, h.context?_eq, hget, h.next_eq_number hnew]
  by_cases henc : t.enclosing? = some u
  · rw [henc, Option.map_some, if_pos rfl, Option.map_some]
    simp only [Spot.scope, fallingInto_append, fallingInto_singleton_of_eq henc, List.map_append,
      map_number_append hchild, List.map_singleton]
  · have hne : t.enclosing?.map (number old.size ss) ≠ some (number old.size ss u) := by
      intro e
      obtain ⟨v, hv, hvu⟩ := Option.map_eq_some_iff.1 e
      exact henc (by rw [hv, number_inj (h.mem_of_enclosing? hv) hvu])
    rw [if_neg hne]
    simp only [Spot.scope, fallingInto_append, fallingInto_singleton_of_ne henc, List.append_nil,
      map_number_append hchild]

/-- The scope opened at `t` has no penalty and no children yet, and is as deep as `t`. -/
theorem get?_openScope_newest (h : Mirrors w outer old es ss t.parent? s) (hnew : t ∉ ss)
    (hss : ∀ x ∈ ss, x.enclosing? ≠ some t) :
    (s.openScope outer t.visit).scopes.get? (number old.size (ss ++ [t]) t) =
      some (t.scope outer old.size (ss ++ [t]) Amount.zero) := by
  have hself : t.enclosing? ≠ some t := fun e => not_mem_above_self t (mem_above_of_enclosing? e)
  have hchildren : fallingInto t (ss ++ [t]) = [] := by
    refine List.filter_eq_nil_iff.2 fun x hx => ?_
    rcases List.mem_append.1 hx with hx | hx
    · simpa using hss x hx
    · simpa [List.mem_singleton.1 hx] using hself
  have hctx : ∀ p, s.context? = some p → p < s.scopes.size := by
    intro p hp
    rw [h.context?_eq] at hp
    obtain ⟨v, hv, rfl⟩ := Option.map_eq_some_iff.1 hp
    rw [h.size]
    exact number_lt (h.mem_of_enclosing? hv)
  have hdepth : s.stack.length = t.depth := by
    rw [h.stack, List.length_map, openFrom_parent?, depth, List.countP_eq_length_filter]
  rw [← h.next_eq_number hnew, get?_openScope_next _ _ hctx]
  simp [Spot.scope, fresh, hchildren, hdepth, Spot.visit]

/-- Once a scope has been opened at `t`, every open scope is the last child of the one that it falls
into. -/
theorem last_openScope (h : Mirrors w outer old es ss t.parent? s) {u v : Spot}
    (hv : v ∈ t.upward) (hscope : v.isScope = true) (hu : v.enclosing? = some u) :
    (fallingInto u (ss ++ [t])).getLast? = some v := by
  rw [fallingInto_append]
  rcases List.mem_cons.1 hv with rfl | hv
  · rw [fallingInto_singleton_of_eq hu, List.getLast?_concat]
  · -- `t` is deeper than `v`, so it falls into another scope
    have hne : t.enclosing? ≠ some u := by
      intro e
      have hlt := depth_lt_of_mem_above hv hscope
      rw [depth_eq_of_enclosing? e, depth_eq_of_enclosing? hu] at hlt
      exact Nat.lt_irrefl _ hlt
    rw [fallingInto_singleton_of_ne hne, List.append_nil]
    exact h.last v (by rwa [openFrom_parent?]) hscope u hu

/-- Opening a scope keeps the mirror, now with that scope. Nothing has fallen into it yet. -/
theorem openScope (h : Mirrors w outer old es ss t.parent? s) (ht : t.isScope = true)
    (hnew : t ∉ ss) (hes : ∀ x ∈ es, x.enclosing? ≠ some t)
    (hss : ∀ x ∈ ss, x.enclosing? ≠ some t) :
    Mirrors w outer old es (ss ++ [t]) (some t) (s.openScope outer t.visit) := by
  have habove : ∀ v ∈ t.above.filter isScope, v ∈ ss := fun v hv =>
    h.opened v (by rw [openFrom_parent?]; exact (List.mem_filter.1 hv).1) (List.mem_filter.1 hv).2
  refine ⟨?_, ?_, ?_, ?_, fun id hid => h.kept_openScope hid, ?_⟩
  · have hup : (openFrom (some t)).filter isScope = t :: t.above.filter isScope := by
      simp [openFrom, upward, ht]
    rw [stack_openScope, hup, List.map_cons, h.next_eq_number hnew, map_number_append habove,
      h.stack, openFrom_parent?]
  · intro v hv hscope
    rcases List.mem_cons.1 hv with rfl | hv
    · simp
    · exact List.mem_append_left _ (habove v (List.mem_filter.2 ⟨hv, hscope⟩))
  · intro v hv hscope u hu
    exact h.last_openScope hv hscope hu
  · rw [size_scopes_openScope, h.size, List.length_append, List.length_singleton, Nat.add_assoc]
  · intro u hu
    rcases List.mem_append.1 hu with hu | hu
    · obtain ⟨own, htotal, hget⟩ := h.made u hu
      exact ⟨own, htotal, h.get?_openScope_older hnew hu hget⟩
    · obtain rfl := List.mem_singleton.1 hu
      have hnone : fallingInto u es = [] := by
        refine List.filter_eq_nil_iff.2 fun x hx => ?_
        simpa using hes x hx
      refine ⟨Amount.zero, ?_, h.get?_openScope_newest hnew hss⟩
      rw [hnone]
      rfl

/-- When a spot is left, the innermost scope was opened by its node exactly if it opened one. -/
theorem contextNode?_eq_iff {n : Node} (hn : t ∈ n.walked)
    (h : Mirrors w outer old es ss (some t) s) :
    s.contextNode? = some t.node ↔ t.isScope = true := by
  have hstack := h.stack
  constructor
  · intro hnode
    by_contra ht
    -- the innermost scope belongs to a spot above `t`, whose node is another one
    have hopen : (openFrom (some t)).filter isScope = t.above.filter isScope := by
      simp [openFrom, upward, ht]
    obtain ⟨scope, hscope, hscopeNode⟩ := Option.map_eq_some_iff.1 hnode
    obtain ⟨id, hid, hget⟩ := Option.bind_eq_some_iff.1 hscope
    rw [hopen] at hstack
    rw [context?, hstack, List.head?_map, List.head?_filter] at hid
    obtain ⟨v, hv, rfl⟩ := Option.map_eq_some_iff.1 hid
    have habove : v ∈ t.above := mem_above_of_enclosing? hv
    have hv' : v ∈ ss := h.opened v (List.mem_cons_of_mem t habove) (isScope_of_enclosing? hv)
    obtain ⟨own, -, hmade⟩ := h.made v hv'
    rw [hmade] at hget
    obtain rfl := Option.some.inj hget
    exact Node.node_ne_of_mem_above hn habove hscopeNode.symm
  · intro ht
    have hmem : t ∈ ss := h.opened t List.mem_cons_self ht
    obtain ⟨own, -, hmade⟩ := h.made t hmem
    have hctx : s.context? = some (number old.size ss t) := by
      rw [context?, hstack]
      simp [openFrom, upward, ht]
    rw [contextNode?, hctx, Option.bind_some, hmade]
    rfl

/-- Leaving a spot takes the scope that it opened off the stack, if it opened one. -/
theorem close_eq {n : Node} (hn : t ∈ n.walked) (h : Mirrors w outer old es ss (some t) s) :
    s.close t.node = if t.isScope = true then { s with stack := s.stack.tail } else s := by
  have hiff := h.contextNode?_eq_iff hn
  by_cases ht : t.isScope = true
  · rw [if_pos ht]
    exact if_pos (hiff.2 ht)
  · rw [if_neg ht]
    exact if_neg fun e => ht (hiff.1 e)

/-- Leaving a spot keeps the mirror. -/
theorem close {n : Node} (hn : t ∈ n.walked) (h : Mirrors w outer old es ss (some t) s) :
    Mirrors w outer old es ss t.parent? (s.close t.node) := by
  -- what is open afterwards was open before
  have hmem : ∀ v ∈ openFrom t.parent?, v ∈ openFrom (some t) := by
    intro v hv
    rw [openFrom_parent?] at hv
    exact List.mem_cons_of_mem t hv
  have hopened : ∀ v ∈ openFrom t.parent?, v.isScope = true → v ∈ ss :=
    fun v hv => h.opened v (hmem v hv)
  have hlast : ∀ v ∈ openFrom t.parent?, v.isScope = true → ∀ u, v.enclosing? = some u →
      (fallingInto u ss).getLast? = some v := fun v hv => h.last v (hmem v hv)
  rw [h.close_eq hn]
  by_cases ht : t.isScope = true
  · rw [if_pos ht]
    refine ⟨?_, hopened, hlast, h.size, h.kept, h.made⟩
    show s.stack.tail = _
    rw [h.stack, openFrom_parent?]
    simp [openFrom, upward, ht]
  · rw [if_neg ht]
    refine { h with stack := ?_, opened := hopened, last := hlast }
    rw [h.stack, openFrom_parent?]
    simp [openFrom, upward, ht]

/-! ## Entering a spot -/

/-- Opening the scope of the next spot of a walk, once the spot is charged, keeps the mirror. -/
theorem openScope_next {n : Node} {rest : List Spot} (hn : n.walked = es ++ t :: rest)
    (h : Mirrors w outer old (es ++ [t]) (scopesAmong es) t.parent? s) (ht : t.isScope = true) :
    Mirrors w outer old (es ++ [t]) (scopesAmong (es ++ [t])) (some t)
      (s.openScope outer t.visit) := by
  have hone : scopesAmong [t] = [t] := by simp [scopesAmong, ht]
  -- nothing entered so far is below `t`, so nothing has fallen into its scope
  have hes : ∀ x ∈ es ++ [t], x.enclosing? ≠ some t :=
    fun x hx => Node.enclosing?_ne_of_walked_eq hn hx
  have hss : ∀ x ∈ scopesAmong es, x.enclosing? ≠ some t :=
    fun x hx => hes x (List.mem_append_left _ (mem_scopesAmong.1 hx).1)
  have hnew : t ∉ scopesAmong es :=
    fun hm => Node.not_mem_of_walked_eq hn (mem_scopesAmong.1 hm).1
  rw [scopesAmong_append, hone]
  exact h.openScope ht hnew hes hss

/-- Entering the next spot of a walk keeps the mirror. -/
theorem enter {n : Node} {rest : List Spot} (hn : n.walked = es ++ t :: rest)
    (h : Mirrors w outer old es (scopesAmong es) t.parent? s)
    (hrun : (Step.enter w outer t.visit).run s = .ok () s₁) :
    Mirrors w outer old (es ++ [t]) (scopesAmong (es ++ [t])) (some t) s₁ := by
  cases ht : t.isScope with
  | false =>
      have hnone : scopesAmong [t] = [] := by simp [scopesAmong, ht]
      rw [scopesAmong_append, hnone, List.append_nil]
      exact (h.charge ((Step.enter_eq_ok_iff_of_not_scope (v := t.visit) ht).1 hrun)).1.pass ht
  | true =>
      obtain ⟨s₂, r, hcharge, -, rfl⟩ := (Step.enter_eq_ok_iff_of_scope (v := t.visit) ht).1 hrun
      have hopen := (h.charge hcharge).1.openScope_next hn ht
      exact ⟨hopen.stack, hopen.opened, hopen.last, hopen.size, hopen.kept, hopen.made⟩

end Session.Mirrors

end ScopeScore
