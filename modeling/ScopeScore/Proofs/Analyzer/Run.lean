import ScopeScore.Proofs.Analyzer.Mirror

set_option autoImplicit false

/-! # Runs of an analyzer

When a run comes to its end, and what it leaves behind then: the store mirrors the whole walk, and
the recorder was told of its scopes in order.

* **`analyze_completes`**: this is so if the recorder has room for all scopes and every scope's
  charges have a sum.
* `analyze_completes_of_ints`: integers always have one, so room is all that is needed.
-/

namespace ScopeScore

open Spot Call

/-! ## Recorders -/

namespace Recorder

/-- The recorder with some more scopes. -/
def holding (r : Recorder) (ids : List ScopeId) : Recorder :=
  { r with records := r.records ++ ids }

/-- May the recorder take `k` more scopes without refusing one? -/
def HasRoom (r : Recorder) (k : Nat) : Prop := ∀ l, r.limit = some l → r.records.length + k ≤ l

theorem hasRoom_unlimited (k : Nat) : unlimited.HasRoom k := by
  intro l h
  cases h

theorem HasRoom.mono {r : Recorder} {j k : Nat} (h : r.HasRoom k) (hjk : j ≤ k) : r.HasRoom j := by
  intro l hl
  have := h l hl
  omega

theorem HasRoom.holding {r : Recorder} {k : Nat} {ids : List ScopeId}
    (h : r.HasRoom (ids.length + k)) : (r.holding ids).HasRoom k := by
  intro l hl
  have := h l hl
  simp only [Recorder.holding, List.length_append]
  omega

/-- A recorder with room takes one more scope. -/
theorem add_of_hasRoom {r : Recorder} (h : r.HasRoom 1) (id : ScopeId) :
    r.add id = .ok (r.holding [id]) := by
  have hfull : r.isFull = false := by
    unfold isFull
    cases hl : r.limit with
    | none => rfl
    | some l =>
        have := h l hl
        simp
        omega
  rw [add, hfull]
  rfl

theorem holding_holding (r : Recorder) (ids more : List ScopeId) :
    (r.holding ids).holding more = r.holding (ids ++ more) := by
  simp [Recorder.holding]

end Recorder

/-! ## Walks that come to their end -/

namespace Session.Mirrors

variable {w : Weights} {outer : List Node} {old : Store} {es rest : List Spot} {t : Spot}
  {s : Session} {n : Node}

/-- The next spot can be entered if what falls into its scope has a sum and, should it open a scope,
the recorder has room. The recorder is then told of the scope. -/
theorem enter_total {r : Recorder} (hn : n.walked = es ++ t :: rest)
    (h : Mirrors w outer old es (scopesAmong es) t.parent? s)
    (hr : s.recorder = r.holding ((scopesAmong es).map (number old.size (scopesAmong es))))
    (hroom : t.isScope = true → r.HasRoom ((scopesAmong es).length + 1))
    (hsum : ∀ v, t.enclosing? = some v →
      ∃ own, Amount.total (charges w (fallingInto v (es ++ [t]))) = .ok own) :
    ∃ s₁, (Step.enter w outer t.visit).run s = .ok () s₁ ∧
      s₁.recorder = r.holding
        ((scopesAmong (es ++ [t])).map (number old.size (scopesAmong (es ++ [t])))) := by
  obtain ⟨s₁, hcharge⟩ := h.charge_total hsum
  obtain ⟨hmirror, hrec⟩ := h.charge hcharge
  cases ht : t.isScope with
  | false =>
      have hsame : scopesAmong (es ++ [t]) = scopesAmong es := by
        simp [scopesAmong, ht]
      refine ⟨s₁, (Step.enter_eq_ok_iff_of_not_scope (v := t.visit) ht).2 hcharge, ?_⟩
      rw [hsame, hrec, hr]
  | true =>
      have hmore : scopesAmong (es ++ [t]) = scopesAmong es ++ [t] := by
        simp [scopesAmong, ht]
      have hnew : t ∉ scopesAmong es :=
        fun hm => Node.not_mem_of_walked_eq hn (mem_scopesAmong.1 hm).1
      have hroom' : s₁.recorder.HasRoom 1 := by
        rw [hrec, hr]
        refine Recorder.HasRoom.holding ?_
        rw [List.length_map]
        exact hroom ht
      have hadd := Recorder.add_of_hasRoom hroom' s₁.scopes.next
      refine ⟨_, (Step.enter_eq_ok_iff_of_scope (v := t.visit) ht).2
        ⟨s₁, _, hcharge, hadd, rfl⟩, ?_⟩
      show s₁.recorder.holding [s₁.scopes.size] = _
      rw [hmore, List.map_append, map_number_append (fun u hu => hu), List.map_singleton,
        number_append_self hnew, ← hmirror.size, hrec, hr, Recorder.holding_holding]

end Session.Mirrors

/-- **A walk comes to its end** if every scope's charges have a sum and the recorder has room, and
then the session mirrors all of it. -/
theorem Step.exists_run_walkFrom (w : Weights) (place : Place) (s₀ : Session)
    (hstack : s₀.stack = []) (hroom : s₀.recorder.HasRoom place.node.openings.length)
    (hsum : ∀ v ∈ place.node.openings,
      ∃ own, Amount.total (charges w (fallingInto v place.node.walked)) = .ok own) :
    ∃ s, (Step.walkFrom w place).run s₀ = .ok () s ∧
      Session.Mirrors w place.above s₀.scopes place.node.walked place.node.openings none s ∧
      s.recorder = s₀.recorder.holding
        (place.node.openings.map (number s₀.scopes.size place.node.openings)) := by
  refine walk_total
    (fun es cur s => Session.Mirrors w place.above s₀.scopes es (scopesAmong es) cur s ∧
      s.recorder = s₀.recorder.holding
        ((scopesAmong es).map (number s₀.scopes.size (scopesAmong es)))) ?_ ?_ ?_
  · exact ⟨Session.Mirrors.start w place.above s₀ hstack, by simp [scopesAmong, Recorder.holding]⟩
  · rintro es rest t s hn ⟨hmirror, hrec⟩
    have hsplit : place.node.walked = (es ++ [t]) ++ rest := by simp [hn]
    -- a scope opened here is one of those for which there is room
    have hroom' : t.isScope = true → s₀.recorder.HasRoom ((scopesAmong es).length + 1) := by
      intro ht
      refine hroom.mono ?_
      rw [Node.openings, hn, scopesAmong_append, List.length_append]
      simp [scopesAmong, ht]
    -- what has fallen into a scope so far is a beginning of all that will
    have hsum' : ∀ v, t.enclosing? = some v →
        ∃ own, Amount.total (charges w (fallingInto v (es ++ [t]))) = .ok own := by
      intro v hv
      have hvn : v ∈ place.node.walked :=
        Node.mem_walked_of_mem_above (by simp [hn]) (mem_above_of_enclosing? hv)
      obtain ⟨own, hown⟩ := hsum v (mem_scopesAmong.2 ⟨hvn, isScope_of_enclosing? hv⟩)
      rw [hsplit, fallingInto_append, charges_append] at hown
      obtain ⟨mid, hmid, -⟩ := Amount.foldlM_add_append.1 hown
      exact ⟨mid, hmid⟩
    obtain ⟨s₁, hrun, hrec₁⟩ := hmirror.enter_total hn hrec hroom' hsum'
    exact ⟨s₁, hrun, hmirror.enter hn hrun, hrec₁⟩
  · rintro es t s ht ⟨hmirror, hrec⟩
    refine ⟨s.close t.node, Step.run_leave t.visit s, hmirror.close ht, ?_⟩
    rw [Session.recorder_close, hrec]

namespace Analyzer

/-- **What a run leaves behind** when every scope's charges have a sum and the recorder has room: it
does not fail, the recorder was told of the scopes in order, and the store mirrors the walk. -/
theorem analyze_completes (a : Analyzer) (place : Place) (r : Recorder) (h : History)
    (hroom : r.HasRoom place.node.openings.length)
    (hsum : ∀ v ∈ place.node.openings,
      ∃ own, Amount.total (charges a.weights (fallingInto v place.node.walked)) = .ok own) :
    ∃ s : Session,
      Session.Mirrors a.weights place.above h.scopes place.node.walked place.node.openings none s ∧
      a.analyze (some place) r h =
        { analyzer := { a with stack := [], collector := none }
          recorder := r.holding
            (place.node.openings.map (number h.scopes.size place.node.openings))
          history := s.history
          failure := none } := by
  obtain ⟨s, hrun, hmirror, hrec⟩ := Step.exists_run_walkFrom a.weights place
    { history := h, stack := [], recorder := r } rfl hroom hsum
  refine ⟨s, hmirror, ?_⟩
  have hstack : s.stack = [] := hmirror.stack
  simp only [analyze, hrun, hstack, hrec]

end Analyzer

/-! ## Integer weights -/

/-- With integer weights the charges of any spots add up to what their nodes cost. -/
theorem Spot.total_charges_of_ints {w : Weights} {f : Category → Int}
    (hf : ∀ c, w.get c = .int (f c)) (es : List Spot) :
    Amount.total (charges w es) = .ok (.int (es.map fun t => t.node.cost f).sum) := by
  have hget : w.get = fun c => .int (f c) := funext hf
  have hcharges : charges w es = (es.flatMap fun t => t.node.tariff.map f).map Amount.int := by
    simp [charges, hget, List.map_flatMap, Function.comp_def]
  rw [hcharges, Amount.total_ints, sum_flatMap]
  rfl

/-- With integer weights every run comes to its end if the recorder has room. -/
theorem Analyzer.analyze_completes_of_ints (a : Analyzer) (place : Place) (r : Recorder)
    (h : History) {f : Category → Int} (hf : ∀ c, a.weights.get c = .int (f c))
    (hroom : r.HasRoom place.node.openings.length) :
    ∃ s : Session,
      Session.Mirrors a.weights place.above h.scopes place.node.walked place.node.openings none s ∧
      a.analyze (some place) r h =
        { analyzer := { a with stack := [], collector := none }
          recorder := r.holding
            (place.node.openings.map (number h.scopes.size place.node.openings))
          history := s.history
          failure := none } :=
  a.analyze_completes place r h hroom fun _ _ => ⟨_, Spot.total_charges_of_ints hf _⟩

end ScopeScore
