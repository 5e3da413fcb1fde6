import ScopeScore.Proofs.Tree.Spot
import Mathlib.Data.List.Induction

set_option autoImplicit false

/-! # The calls of a walk

A walk is the list of the calls that it makes of its visitors: `Node.calls` is that list, and
**`traverse_eq_forM_calls`** says that walking is making these calls one after the other. A point
of a walk between two calls is then a beginning of the list, and what holds there is proved by
induction on it.

The calls are nested like brackets. Which spot is the innermost that was entered and not yet left
depends on the last call only, and `Call.before` and `Call.after` say so for each call; that every
call begins where the one before it ended is `Call.Leads`. Three ways to reason about a walk follow:

* **`Call.walk_induct`**: what the two visitors preserve holds at every point that a walk reaches;
* **`Call.walk_reaches`**: a walk gets to a point if they preserve it and do not fail before;
* **`Call.walk_total`**: if they never fail, the walk comes to its end.
-/

namespace ScopeScore

/-- A call of a visitor. -/
inductive Call where
  | enter (s : Spot)
  | leave (s : Spot)
deriving DecidableEq

namespace Node

mutual

/-- The calls of a walk from the spot `s`, whose node is given apart. -/
def callsFrom (s : Spot) : Node → List Call
  | .node _ cs => .enter s :: (callsUnder s 0 cs ++ [.leave s])

/-- The calls of a walk through the named trees of a forest that hangs under `s`. -/
def callsUnder (s : Spot) (i : Nat) : List Node → List Call
  | [] => []
  | c :: cs => (if c.named then callsFrom (.under s i c) c else []) ++ callsUnder s (i + 1) cs

end

/-- The calls of a walk that starts at `n`, in order. -/
def calls (n : Node) : List Call := callsFrom (.start n) n

end Node

namespace Call

/-- The innermost spot that was entered and not yet left when the call is made. -/
def before : Call → Option Spot
  | .enter s => s.parent?
  | .leave s => some s

/-- The innermost spot that was entered and not yet left after the call. -/
def after : Call → Option Spot
  | .enter s => some s
  | .leave s => s.parent?

/-- The spot that a call enters. -/
def entered? : Call → Option Spot
  | .enter s => some s
  | .leave _ => none

/-- The spots that some calls enter, in order. -/
def entered (cs : List Call) : List Spot := cs.filterMap entered?

/-- The spots that some calls enter and do not leave, in the order in which they were entered. -/
def unleft (cs : List Call) : List Spot := (entered cs).filter fun s => .leave s ∉ cs

/-- Every call begins where the one before it ended: from `a` the calls lead to `b`. -/
def Leads : Option Spot → List Call → Option Spot → Prop
  | a, [], b => a = b
  | a, c :: cs, b => c.before = a ∧ Leads c.after cs b

theorem leads_append {a b : Option Spot} {cs ds : List Call} :
    Leads a (cs ++ ds) b ↔ ∃ m, Leads a cs m ∧ Leads m ds b := by
  induction cs generalizing a with
  | nil => simp [Leads]
  | cons c cs ih => simp [Leads, ih, and_assoc]

@[simp]
theorem entered_append (cs ds : List Call) : entered (cs ++ ds) = entered cs ++ entered ds :=
  List.filterMap_append

@[simp]
theorem entered_enter (s : Spot) : entered [.enter s] = [s] := rfl

@[simp]
theorem entered_leave (s : Spot) : entered [.leave s] = [] := rfl

end Call

namespace Node

open Call

mutual

theorem entered_callsFrom (s : Spot) : ∀ n : Node, entered (callsFrom s n) = spotsFrom s n
  | .node l cs => by
      have hu := entered_callsUnder s 0 cs
      show s :: entered (callsUnder s 0 cs ++ [.leave s]) = s :: spotsUnder s 0 cs
      rw [entered_append, hu, entered_leave, List.append_nil]

theorem entered_callsUnder (s : Spot) :
    ∀ (i : Nat) (cs : List Node), entered (callsUnder s i cs) = spotsUnder s i cs
  | i, [] => rfl
  | i, c :: cs => by
      rw [callsUnder, spotsUnder, entered_append, entered_callsUnder s (i + 1) cs]
      by_cases hc : c.named = true
      · rw [if_pos hc, if_pos hc, entered_callsFrom (.under s i c) c]
      · rw [if_neg hc, if_neg hc]
        rfl

end

/-- A walk enters its spots in their order. -/
theorem entered_calls (n : Node) : entered n.calls = n.walked := entered_callsFrom (.start n) n

mutual

theorem leads_callsFrom (s : Spot) : ∀ n : Node, Leads s.parent? (callsFrom s n) s.parent?
  | .node l cs => by
      refine ⟨rfl, leads_append.2 ⟨some s, leads_callsUnder s 0 cs, ?_⟩⟩
      exact ⟨rfl, rfl⟩

theorem leads_callsUnder (s : Spot) :
    ∀ (i : Nat) (cs : List Node), Leads (some s) (callsUnder s i cs) (some s)
  | i, [] => rfl
  | i, c :: cs => by
      rw [callsUnder]
      refine leads_append.2 ⟨some s, ?_, leads_callsUnder s (i + 1) cs⟩
      split
      · exact leads_callsFrom (.under s i c) c
      · rfl

end

/-- The calls of a walk are nested like brackets. -/
theorem leads_calls (n : Node) : Leads none n.calls none := leads_callsFrom (.start n) n

end Node

/-! ## Walking is making the calls -/

section Perform

variable {m : Type → Type} [Monad m] (enter leave : Visit → m Unit)

/-- Makes a call. -/
def Call.perform : Call → m Unit
  | .enter s => enter s.visit
  | .leave s => leave s.visit

mutual

theorem visit_eq_forM_callsFrom [LawfulMonad m] (s : Spot) :
    ∀ n : Node, s.node = n →
      visit enter leave (s.above.map Spot.node) n =
        forM (Node.callsFrom s n) (Call.perform enter leave)
  | .node l cs, hs => by
      have hv : s.visit = { node := .node l cs, path := s.above.map Spot.node } := by
        rw [Spot.visit, hs]
      -- the path that the children see is the way up from `s`
      have hp : (Node.node l cs) :: s.above.map Spot.node = s.upward.map Spot.node := by
        rw [Spot.upward, List.map_cons, hs]
      rw [visit, hp, visitAll_eq_forM_callsUnder s 0 cs, Node.callsFrom, List.forM_cons,
        List.forM_append]
      simp only [Call.perform, hv, List.forM_cons, List.forM_nil, bind_pure_unit]

theorem visitAll_eq_forM_callsUnder [LawfulMonad m] (s : Spot) :
    ∀ (i : Nat) (cs : List Node),
      visitAll enter leave (s.upward.map Spot.node) cs =
        forM (Node.callsUnder s i cs) (Call.perform enter leave)
  | i, [] => by simp [visitAll, Node.callsUnder]
  | i, c :: cs => by
      rw [visitAll, Node.callsUnder, List.forM_append, visitAll_eq_forM_callsUnder s (i + 1) cs]
      by_cases hc : c.named = true
      · rw [if_pos hc, if_pos hc]
        have hv := visit_eq_forM_callsFrom (.under s i c) c rfl
        rw [Spot.above_under] at hv
        rw [hv]
      · rw [if_neg hc, if_neg hc, List.forM_nil, pure_bind]

end

/-- **Walking is making the calls one after the other**, whatever the visitors do. -/
theorem traverse_eq_forM_calls [LawfulMonad m] (n : Node) :
    traverse enter leave n = forM n.calls (Call.perform enter leave) := by
  rw [traverse_eq_visit]
  exact visit_eq_forM_callsFrom enter leave (.start n) n rfl

end Perform

/-! ## What is open at a point of a walk -/

namespace Call

/-- The spots that are open when the innermost of them is given, that one first. -/
def openFrom : Option Spot → List Spot
  | none => []
  | some s => s.upward

theorem openFrom_parent? (s : Spot) : openFrom s.parent? = s.above := by
  cases s <;> rfl

/-- A beginning of a walk enters a beginning of its spots. -/
theorem walked_eq_of_calls_eq {n : Node} {pre post : List Call} (h : n.calls = pre ++ post) :
    n.walked = entered pre ++ entered post := by
  rw [← Node.entered_calls, h, entered_append]

/-- Every spot of a walk is entered by a call, after those that enter the spots before it. -/
theorem exists_calls_eq_of_walked_eq {n : Node} {es rest : List Spot} {t : Spot}
    (h : n.walked = es ++ t :: rest) :
    ∃ pre post, n.calls = pre ++ .enter t :: post ∧ entered pre = es := by
  rw [← Node.entered_calls, entered, List.filterMap_eq_append_iff] at h
  obtain ⟨first, others, hsplit, hfirst, hothers⟩ := h
  obtain ⟨skipped, c, post, rfl, hskipped, hc, -⟩ := List.filterMap_eq_cons_iff.1 hothers
  obtain rfl : c = .enter t := by
    cases c with
    | enter s => rw [Option.some.inj hc]
    | leave s => cases hc
  refine ⟨first ++ skipped, post, by simp [hsplit], ?_⟩
  -- what is skipped enters nothing
  have hnone : entered skipped = [] := List.filterMap_eq_nil_iff.2 hskipped
  rw [entered_append, hnone, List.append_nil]
  exact hfirst

theorem exists_leads_of_calls_eq {n : Node} {pre post : List Call} (h : n.calls = pre ++ post) :
    ∃ cur, Leads none pre cur ∧ Leads cur post none :=
  leads_append.1 (h ▸ Node.leads_calls n)

/-- **What was entered and not yet left is the way up from the innermost such spot.** The second
part, that nothing is left which was not entered, carries the induction. -/
theorem unleft_eq_of_leads {n : Node} {pre : List Call} :
    ∀ {post : List Call} {cur : Option Spot}, n.calls = pre ++ post → Leads none pre cur →
      unleft pre = (openFrom cur).reverse ∧ ∀ s, .leave s ∈ pre → s ∈ entered pre := by
  induction pre using List.reverseRecOn with
  | nil =>
      rintro post cur - rfl
      exact ⟨rfl, fun s hs => absurd hs List.not_mem_nil⟩
  | append_singleton pre c ih =>
      intro post cur hn hlead
      obtain ⟨m, hpre, hc, rfl⟩ := leads_append.1 hlead
      rw [List.append_assoc] at hn
      obtain ⟨hopen, hleft⟩ := ih hn hpre
      cases c with
      | enter t =>
          -- nothing is entered twice, so `t` cannot have been left before
          have hw : n.walked = entered pre ++ t :: entered post := walked_eq_of_calls_eq hn
          have hnew : .leave t ∉ pre := fun h => Node.not_mem_of_walked_eq hw (hleft t h)
          constructor
          · have hsplit : unleft (pre ++ [.enter t]) = unleft pre ++ [t] := by
              simp [unleft, List.filter_append, hnew]
            rw [hsplit, hopen, ← hc]
            show (openFrom t.parent?).reverse ++ [t] = t.upward.reverse
            rw [openFrom_parent?, Spot.upward, List.reverse_cons]
          · intro s hs
            have hs' : .leave s ∈ pre := by simpa using hs
            simp [hleft s hs']
      | leave t =>
          -- `t` was the innermost open spot, and all that is above it stays open
          obtain rfl : some t = m := hc
          constructor
          · have hsplit : unleft (pre ++ [.leave t]) = (unleft pre).filter (· ≠ t) := by
              simp only [unleft, entered_append, entered_leave, List.append_nil,
                List.filter_filter]
              refine List.filter_congr fun s _ => ?_
              simp [not_or, and_comm]
            have hrest : t.above.reverse.filter (· ≠ t) = t.above.reverse := by
              refine List.filter_eq_self.2 fun s hs => ?_
              have hs' : s ∈ t.above := List.mem_reverse.1 hs
              have : s ≠ t := fun h => Spot.not_mem_above_self t (h ▸ hs')
              simp [this]
            rw [hsplit, hopen]
            show (t :: t.above).reverse.filter (· ≠ t) = (openFrom t.parent?).reverse
            rw [openFrom_parent?, List.reverse_cons, List.filter_append, hrest]
            simp
          · -- `t` was open, so it was entered
            have ht : t ∈ entered pre := by
              have : t ∈ unleft pre := by simp [hopen, openFrom, Spot.upward]
              exact List.mem_of_mem_filter this
            intro s hs
            rcases List.mem_append.1 hs with hs | hs
            · simp [hleft s hs]
            · simp at hs
              simp [hs, ht]

theorem mem_walked_of_leave {n : Node} {pre post : List Call} {t : Spot}
    (h : n.calls = pre ++ .leave t :: post) : t ∈ n.walked := by
  have h' : n.calls = (pre ++ [.leave t]) ++ post := by simpa using h
  obtain ⟨cur, hlead, -⟩ := exists_leads_of_calls_eq h'
  have ht := (unleft_eq_of_leads h' hlead).2 t (by simp)
  rw [walked_eq_of_calls_eq h']
  exact List.mem_append_left _ ht

/-! ## Induction along a walk -/

section Run

variable {ε σ : Type} {enter leave : Visit → EStateM ε σ Unit} {n : Node} {start : σ}

theorem forM_append_eq_ok {cs ds : List Call} {s s' : σ} :
    EStateM.run (forM (cs ++ ds) (perform enter leave)) s = .ok () s' ↔
      ∃ m, EStateM.run (forM cs (perform enter leave)) s = .ok () m ∧
        EStateM.run (forM ds (perform enter leave)) m = .ok () s' := by
  rw [List.forM_append, EStateM.run_bind]
  cases h : EStateM.run (forM cs (perform enter leave)) s with
  | ok u m => simp
  | error e m => simp

theorem forM_singleton_run (c : Call) (s : σ) :
    EStateM.run (forM [c] (perform enter leave)) s = (perform enter leave c).run s := by
  rw [List.forM_cons, List.forM_nil, bind_pure_unit]

/-- **Induction along a walk.** An invariant speaks about the spots entered so far, the innermost of
them that is still open, and the state. If both visitors preserve it, it holds at every point that
the walk reaches. -/
theorem walk_induct (Inv : List Spot → Option Spot → σ → Prop) (init : Inv [] none start)
    (enters : ∀ es rest t s s', n.walked = es ++ t :: rest → Inv es t.parent? s →
      (enter t.visit).run s = .ok () s' → Inv (es ++ [t]) (some t) s')
    (leaves : ∀ es t s s', t ∈ n.walked → Inv es (some t) s → (leave t.visit).run s = .ok () s' →
      Inv es t.parent? s')
    {pre : List Call} :
    ∀ {post : List Call} {cur : Option Spot} {s : σ}, n.calls = pre ++ post → Leads none pre cur →
      EStateM.run (forM pre (perform enter leave)) start = .ok () s → Inv (entered pre) cur s := by
  induction pre using List.reverseRecOn with
  | nil =>
      rintro post cur s - rfl hrun
      obtain ⟨-, rfl⟩ := EStateM.Result.ok.inj hrun
      exact init
  | append_singleton pre c ih =>
      intro post cur s' hn hlead hrun
      obtain ⟨m, hpre, hc, rfl⟩ := leads_append.1 hlead
      obtain ⟨s, hrun, hlast⟩ := forM_append_eq_ok.1 hrun
      rw [forM_singleton_run] at hlast
      rw [List.append_assoc] at hn
      have hinv := ih hn hpre hrun
      -- the last call begins where the calls before it led to
      rw [← hc] at hinv
      rw [entered_append]
      cases c with
      | enter t => exact enters _ _ t s s' (walked_eq_of_calls_eq hn) hinv hlast
      | leave t =>
          rw [entered_leave, List.append_nil]
          exact leaves _ t s s' (mem_walked_of_leave hn) hinv hlast

/-- **A walk gets as far as its visitors do not fail.** If they preserve an invariant and do not fail
at the spots that some first calls enter, these calls can all be made. -/
theorem walk_reaches (Inv : List Spot → Option Spot → σ → Prop) (init : Inv [] none start)
    (leaves : ∀ es t s, t ∈ n.walked → Inv es (some t) s →
      ∃ s', (leave t.visit).run s = .ok () s' ∧ Inv es t.parent? s')
    {pre : List Call} :
    ∀ {post : List Call} {cur : Option Spot}, n.calls = pre ++ post → Leads none pre cur →
      (∀ es rest t s, entered pre = es ++ t :: rest → Inv es t.parent? s →
        ∃ s', (enter t.visit).run s = .ok () s' ∧ Inv (es ++ [t]) (some t) s') →
      ∃ s, EStateM.run (forM pre (perform enter leave)) start = .ok () s ∧
        Inv (entered pre) cur s := by
  induction pre using List.reverseRecOn with
  | nil =>
      rintro post cur - rfl -
      exact ⟨start, rfl, init⟩
  | append_singleton pre c ih =>
      intro post cur hn hlead enters
      obtain ⟨m, hpre, hc, rfl⟩ := leads_append.1 hlead
      rw [List.append_assoc] at hn
      have henters : ∀ es rest t s, entered pre = es ++ t :: rest → Inv es t.parent? s →
          ∃ s', (enter t.visit).run s = .ok () s' ∧ Inv (es ++ [t]) (some t) s' := by
        intro es rest t s hes
        exact enters es (rest ++ entered [c]) t s (by simp [hes])
      obtain ⟨s, hrun, hinv⟩ := ih hn hpre henters
      rw [← hc] at hinv
      have hstep : ∃ s', (perform enter leave c).run s = .ok () s' ∧
          Inv (entered (pre ++ [c])) c.after s' := by
        rw [entered_append]
        cases c with
        | enter t => exact enters _ [] t s (by simp) hinv
        | leave t =>
            rw [entered_leave, List.append_nil]
            exact leaves _ t s (mem_walked_of_leave hn) hinv
      obtain ⟨s', hlast, hinv'⟩ := hstep
      refine ⟨s', forM_append_eq_ok.2 ⟨s, hrun, ?_⟩, hinv'⟩
      rw [forM_singleton_run, hlast]

/-- **A walk comes to its end** if its visitors preserve an invariant and never fail where it
holds. -/
theorem walk_total (Inv : List Spot → Option Spot → σ → Prop) (init : Inv [] none start)
    (enters : ∀ es rest t s, n.walked = es ++ t :: rest → Inv es t.parent? s →
      ∃ s', (enter t.visit).run s = .ok () s' ∧ Inv (es ++ [t]) (some t) s')
    (leaves : ∀ es t s, t ∈ n.walked → Inv es (some t) s →
      ∃ s', (leave t.visit).run s = .ok () s' ∧ Inv es t.parent? s') :
    ∃ s, (traverse enter leave n).run start = .ok () s ∧ Inv n.walked none s := by
  have hcalls : n.calls = n.calls ++ [] := by simp
  rw [← Node.entered_calls] at enters ⊢
  obtain ⟨s, hrun, hinv⟩ := walk_reaches Inv init leaves hcalls (Node.leads_calls n) enters
  rw [traverse_eq_forM_calls]
  exact ⟨s, hrun, hinv⟩

/-- A call that fails is the last one. -/
theorem forM_append_cons_eq_error {pre post : List Call} {c : Call} {e : ε} {s s' : σ}
    (hpre : EStateM.run (forM pre (perform enter leave)) start = .ok () s)
    (hc : (perform enter leave c).run s = .error e s') :
    EStateM.run (forM (pre ++ c :: post) (perform enter leave)) start = .error e s' := by
  rw [List.forM_append, EStateM.run_bind, hpre]
  show EStateM.run (forM (c :: post) (perform enter leave)) s = .error e s'
  rw [List.forM_cons, EStateM.run_bind, hc]

end Run

end Call

end ScopeScore
