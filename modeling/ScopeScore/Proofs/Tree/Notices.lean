import ScopeScore.Proofs.Tree.Calls
import ScopeScore.Proofs.Tree.Graft

set_option autoImplicit false

/-! # The notices of a walk

A visitor is told of a node and of the node from which the walk came to it. `Node.notices` lists
what a walk tells its visitors, by recursion on the tree: a node is entered, its named children are
walked in order, and it is left. The walk that the program runs works off a list of jobs instead,
and its visitors may keep a state and may fail.

* `Spot.Reached`: the spots that named children lead to. A walk enters these (`Node.mem_walked_iff`)
  and no others.
* `Node.mem_calls_iff`, `Node.calls_nodup`: it enters each of them once and leaves it once, and
  between the two comes all that is below (`Call.mem_of_leave`).
* `run_forM_noted`: visitors are called up to the first of them that fails.

**`traverse_follows_notices`** puts this together.
-/

namespace ScopeScore

/-- What a walk tells a visitor: a node is entered or left, and from where the walk reached it. -/
inductive Notice where
  | enter (node : Node) (parent : Option Node)
  | leave (node : Node) (parent : Option Node)
deriving DecidableEq

namespace Notice

def isEnter : Notice → Bool
  | .enter _ _ => true
  | .leave _ _ => false

/-- Tells the visitor that the notice is for. -/
def perform {m : Type → Type} (enter leave : Node → Option Node → m Unit) : Notice → m Unit
  | .enter n p => enter n p
  | .leave n p => leave n p

end Notice

namespace Node

mutual

/-- The notices of a walk from a node that was reached from `parent`. -/
def noticesFrom (parent : Option Node) : Node → List Notice
  | .node l cs =>
      .enter (.node l cs) parent ::
        (noticesAmong (.node l cs) cs ++ [.leave (.node l cs) parent])

/-- The notices of a walk through the named trees of a forest that hangs under `parent`. -/
def noticesAmong (parent : Node) : List Node → List Notice
  | [] => []
  | c :: cs => (if c.named then noticesFrom (some parent) c else []) ++ noticesAmong parent cs

end

/-- The notices of a walk that starts at `n`, in order. Nothing is told of the nodes above it. -/
def notices (n : Node) : List Notice := noticesFrom none n

end Node

/-! ## Notices and calls -/

/-- What the visitor learns from a call. -/
def Call.notice : Call → Notice
  | .enter s => .enter s.node (s.parent?.map Spot.node)
  | .leave s => .leave s.node (s.parent?.map Spot.node)

namespace Node

mutual

theorem map_notice_callsFrom (s : Spot) :
    ∀ n : Node, s.node = n →
      (callsFrom s n).map Call.notice = noticesFrom (s.parent?.map Spot.node) n
  | .node l cs, hs => by
      have hbelow := map_notice_callsUnder s 0 cs
      rw [hs] at hbelow
      rw [callsFrom, noticesFrom, List.map_cons, List.map_append, hbelow, List.map_singleton,
        Call.notice, Call.notice, hs]

theorem map_notice_callsUnder (s : Spot) :
    ∀ (i : Nat) (cs : List Node), (callsUnder s i cs).map Call.notice = noticesAmong s.node cs
  | i, [] => rfl
  | i, c :: cs => by
      rw [callsUnder, noticesAmong, List.map_append, map_notice_callsUnder s (i + 1) cs]
      by_cases hc : c.named = true
      · rw [if_pos hc, if_pos hc, map_notice_callsFrom (.under s i c) c rfl]
        rfl
      · rw [if_neg hc, if_neg hc, List.map_nil]

end

/-- The notices of a walk are those of its calls. -/
theorem notices_eq_map_calls (n : Node) : n.notices = n.calls.map Call.notice :=
  (map_notice_callsFrom (.start n) n rfl).symm

end Node

section Visitors

variable {m : Type → Type}

/-- A visitor that looks at the node and at the one from which the walk came. -/
def told (visitor : Node → Option Node → m Unit) (v : Visit) : m Unit := visitor v.node v.parent?

variable (enter leave : Node → Option Node → m Unit)

theorem perform_told (c : Call) :
    c.perform (told enter) (told leave) = c.notice.perform enter leave := by
  have hparent : ∀ s : Spot, s.visit.parent? = s.parent?.map Spot.node := by
    intro s
    cases s <;> rfl
  cases c with
  | enter s => exact congrArg (enter s.node) (hparent s)
  | leave s => exact congrArg (leave s.node) (hparent s)

variable [Monad m] [LawfulMonad m]

/-- **A walk is its notices, one after the other.** -/
theorem traverse_told (n : Node) :
    traverse (told enter) (told leave) n = forM n.notices (Notice.perform enter leave) := by
  rw [traverse_eq_forM_calls, Node.notices_eq_map_calls, List.forM_map]
  exact congrArg (forM n.calls) (funext fun c => perform_told enter leave c)

/-- Where nothing is done when a node is left, only the notices that enter one count. -/
theorem forM_notices_of_no_leave (es : List Notice) :
    forM es (Notice.perform enter fun _ _ => pure ()) =
      forM (es.filter Notice.isEnter) (Notice.perform enter leave) := by
  induction es with
  | nil => rfl
  | cons e es ih =>
      cases e with
      | enter n p =>
          rw [List.forM_cons, ih, List.filter_cons_of_pos rfl, List.forM_cons]
          rfl
      | leave n p =>
          rw [List.forM_cons, ih, List.filter_cons_of_neg (by simp [Notice.isEnter])]
          exact pure_bind ..

/-- A walk whose visitor is not told when nodes are left tells it of the same nodes entered. -/
theorem traverse_told_of_no_leave (n : Node) :
    traverse (told enter) (fun _ => pure ()) n =
      forM (n.notices.filter Notice.isEnter) (Notice.perform enter leave) := by
  rw [← forM_notices_of_no_leave, ← traverse_told]
  rfl

end Visitors

/-! ## What a walk reaches -/

/-- The spots that named children lead to from the node `n`, which need not be named itself. -/
inductive Spot.Reached (n : Node) : Spot → Prop
  | start : Spot.Reached n (.start n)
  | under {p : Spot} {i : Nat} {c : Node} (parent : Spot.Reached n p)
      (child : p.node.children[i]? = some c) (named : c.named = true) :
      Spot.Reached n (.under p i c)

namespace Node

variable {n : Node}

mutual

theorem reached_of_mem_spotsFrom {s t : Spot} (hs : s.Reached n) :
    ∀ m : Node, s.node = m → t ∈ spotsFrom s m → t.Reached n
  | .node l cs, hm, ht => by
      rcases List.mem_cons.1 ht with rfl | ht
      · exact hs
      · refine reached_of_mem_spotsUnder hs 0 cs ?_ ht
        rw [hm]
        rfl

/-- Here `cs` are the children of `s` from position `i` on. -/
theorem reached_of_mem_spotsUnder {s t : Spot} (hs : s.Reached n) :
    ∀ (i : Nat) (cs : List Node), s.node.children.drop i = cs → t ∈ spotsUnder s i cs →
      t.Reached n
  | i, [], _, ht => by simp [spotsUnder] at ht
  | i, c :: cs, hcs, ht => by
      rw [spotsUnder, List.mem_append] at ht
      rcases ht with ht | ht
      · have hc : c.named = true := by
          by_contra hc
          simp [hc] at ht
        rw [if_pos hc] at ht
        have hchild : s.node.children[i]? = some c := by
          rw [← List.head?_drop, hcs, List.head?_cons]
        exact reached_of_mem_spotsFrom (.under hs hchild hc) c rfl ht
      · have hrest : s.node.children.drop (i + 1) = cs := by
          rw [← List.tail_drop, hcs, List.tail_cons]
        exact reached_of_mem_spotsUnder hs (i + 1) cs hrest ht

end

/-- A walk goes on from a spot to each named child. -/
theorem under_mem_spotsUnder {s : Spot} {c : Node} (hc : c.named = true) :
    ∀ (j : Nat) (cs : List Node) (i : Nat), cs[i]? = some c →
      Spot.under s (j + i) c ∈ spotsUnder s j cs := by
  intro j cs
  induction cs generalizing j with
  | nil =>
      intro i hi
      simp at hi
  | cons d cs ih =>
      intro i hi
      rw [spotsUnder, List.mem_append]
      cases i with
      | zero =>
          obtain rfl : d = c := by simpa using hi
          left
          rw [if_pos hc]
          cases d with
          | node l ds => exact List.mem_cons_self
      | succ i =>
          right
          have hmem := ih (j + 1) i (by simpa using hi)
          rwa [Nat.add_assoc, Nat.add_comm 1 i] at hmem

/-- **A walk enters what it can reach**, and nothing else. -/
theorem mem_walked_iff {t : Spot} : t ∈ n.walked ↔ t.Reached n := by
  constructor
  · exact reached_of_mem_spotsFrom .start n rfl
  · intro ht
    induction ht with
    | start =>
        obtain ⟨l, cs⟩ := n
        exact List.mem_cons_self
    | @under p i c parent child named ih =>
        obtain ⟨pre, post, hsplit, -⟩ := exists_spotsFrom_eq n rfl ih
        have hmem : Spot.under p i c ∈ spotsFrom p p.node := by
          have hunder := under_mem_spotsUnder (s := p) named 0 p.node.children i child
          rw [Nat.zero_add] at hunder
          cases hp : p.node with
          | node l cs =>
              rw [hp] at hunder
              exact List.mem_cons_of_mem p hunder
        rw [walked, hsplit]
        exact List.mem_append_left _ (List.mem_append_right _ hmem)

/-! ## Each call once -/

mutual

theorem count_callsFrom (s t : Spot) :
    ∀ m : Node, (callsFrom s m).count (.enter t) = (spotsFrom s m).count t ∧
      (callsFrom s m).count (.leave t) = (spotsFrom s m).count t
  | .node l cs => by
      obtain ⟨henter, hleave⟩ := count_callsUnder s t 0 cs
      constructor
      · simp [callsFrom, spotsFrom, List.count_cons, henter]
      · simp [callsFrom, spotsFrom, List.count_cons, hleave]

theorem count_callsUnder (s t : Spot) :
    ∀ (i : Nat) (cs : List Node),
      (callsUnder s i cs).count (.enter t) = (spotsUnder s i cs).count t ∧
      (callsUnder s i cs).count (.leave t) = (spotsUnder s i cs).count t
  | i, [] => ⟨rfl, rfl⟩
  | i, c :: cs => by
      obtain ⟨henter, hleave⟩ := count_callsUnder s t (i + 1) cs
      rw [callsUnder, spotsUnder, List.count_append, List.count_append, List.count_append, henter,
        hleave]
      by_cases hc : c.named = true
      · obtain ⟨henter', hleave'⟩ := count_callsFrom (.under s i c) t c
        rw [if_pos hc, if_pos hc, henter', hleave']
        exact ⟨rfl, rfl⟩
      · rw [if_neg hc, if_neg hc]
        exact ⟨rfl, rfl⟩

end

theorem mem_calls_iff {t : Spot} :
    (.enter t ∈ n.calls ↔ t.Reached n) ∧ (.leave t ∈ n.calls ↔ t.Reached n) := by
  obtain ⟨henter, hleave⟩ := count_callsFrom (.start n) t n
  have hwalked : 0 < n.walked.count t ↔ t.Reached n := by
    rw [List.count_pos_iff, mem_walked_iff]
  constructor
  · rw [← hwalked, ← List.count_pos_iff, calls, henter, walked]
  · rw [← hwalked, ← List.count_pos_iff, calls, hleave, walked]

/-- **No call is made twice.** -/
theorem calls_nodup (n : Node) : n.calls.Nodup := by
  rw [List.nodup_iff_count_le_one]
  intro c
  have honce : ∀ t : Spot, n.walked.count t ≤ 1 := List.nodup_iff_count_le_one.1 n.walked_nodup
  cases c with
  | enter t => exact (count_callsFrom (.start n) t n).1 ▸ honce t
  | leave t => exact (count_callsFrom (.start n) t n).2 ▸ honce t

mutual

theorem length_callsFrom (s : Spot) :
    ∀ m : Node, (callsFrom s m).length = 2 * (spotsFrom s m).length
  | .node l cs => by
      have hbelow := length_callsUnder s 0 cs
      simp only [callsFrom, spotsFrom, List.length_cons, List.length_append, hbelow,
        List.length_nil]
      omega

theorem length_callsUnder (s : Spot) :
    ∀ (i : Nat) (cs : List Node), (callsUnder s i cs).length = 2 * (spotsUnder s i cs).length
  | i, [] => rfl
  | i, c :: cs => by
      have hrest := length_callsUnder s (i + 1) cs
      rw [callsUnder, spotsUnder, List.length_append, List.length_append, hrest]
      by_cases hc : c.named = true
      · rw [if_pos hc, if_pos hc, length_callsFrom (.under s i c) c]
        omega
      · rw [if_neg hc, if_neg hc, List.length_nil, List.length_nil]
        omega

end

end Node

/-- **A spot is left after all that is below it**: what is below was entered and left before. -/
theorem Call.mem_of_leave {n : Node} {pre post : List Call} {s t : Spot}
    (hn : n.calls = pre ++ .leave s :: post) (ht : t.Reached n) (hs : s ∈ t.above) :
    .enter t ∈ pre ∧ .leave t ∈ pre := by
  obtain ⟨cur, hpre, hcur, -⟩ := exists_leads_of_calls_eq hn
  obtain rfl : some s = cur := hcur
  have hopen : unleft pre = s.upward.reverse := (unleft_eq_of_leads hn hpre).1
  have hentered : .enter t ∈ pre := by
    have hmem : .enter t ∈ pre ++ .leave s :: post := hn ▸ Node.mem_calls_iff.1.2 ht
    rcases List.mem_append.1 hmem with hmem | hmem
    · exact hmem
    · -- `t` would be entered after `s` was left, and `s` is open when `t` is entered
      exfalso
      have hpost : .enter t ∈ post := by simpa using hmem
      obtain ⟨mid, rest, rfl⟩ := List.append_of_mem hpost
      have hn' : n.calls = (pre ++ .leave s :: mid) ++ .enter t :: rest := by simp [hn]
      obtain ⟨cur', hpre', hcur', -⟩ := exists_leads_of_calls_eq hn'
      have hopen' := (unleft_eq_of_leads hn' hpre').1
      rw [← hcur', before, openFrom_parent?] at hopen'
      have hunleft : s ∈ unleft (pre ++ .leave s :: mid) := by
        rw [hopen']
        exact List.mem_reverse.2 hs
      have hnot := (List.mem_filter.1 hunleft).2
      simp at hnot
  refine ⟨hentered, ?_⟩
  by_contra hleft
  have hunleft : t ∈ unleft pre := by
    refine List.mem_filter.2 ⟨List.mem_filterMap.2 ⟨_, hentered, rfl⟩, ?_⟩
    exact decide_eq_true hleft
  rw [hopen, List.mem_reverse] at hunleft
  -- then `t` would be at or above `s`, which is above `t`
  exact Spot.not_mem_above_self t (Spot.mem_above_of_mem_upward hunleft hs)

/-! ## Visitors that fail -/

section Failing

variable {ε σ α : Type}

/-- Does what `act` does and notes that it was asked to, also if it fails. -/
def noted (act : α → EStateM ε σ Unit) (a : α) : EStateM ε (σ × List α) Unit := fun s =>
  match (act a).run s.1 with
  | .ok _ s' => .ok () (s', s.2 ++ [a])
  | .error e s' => .error e (s', s.2 ++ [a])

theorem run_noted (act : α → EStateM ε σ Unit) (a : α) (s : σ) (log : List α) :
    (noted act a).run (s, log) =
      match (act a).run s with
      | .ok _ s' => .ok () (s', log ++ [a])
      | .error e s' => .error e (s', log ++ [a]) := rfl

/-- How a run through `as` ends that began in the state `s` with the notes `log`. Either nothing
failed and all of `as` was noted, or `a` was the first that failed and nothing behind it was
noted. The state is the one in which a run without notes ends. -/
inductive RunsThrough (act : α → EStateM ε σ Unit) (as : List α) (s : σ) (log : List α) :
    EStateM.Result ε (σ × List α) Unit → Prop
  | completed {s' : σ} (whole : EStateM.run (forM as act) s = .ok () s') :
      RunsThrough act as s log (.ok () (s', log ++ as))
  | stopped {before after : List α} {a : α} {mid s' : σ} {e : ε}
      (split : as = before ++ a :: after) (fine : EStateM.run (forM before act) s = .ok () mid)
      (fault : (act a).run mid = .error e s')
      (whole : EStateM.run (forM as act) s = .error e s') :
      RunsThrough act as s log (.error e (s', log ++ (before ++ [a])))

/-- **What is asked for is what stands before the first failure, and the failure itself.** -/
theorem run_forM_noted (act : α → EStateM ε σ Unit) (as : List α) (s : σ) (log : List α) :
    RunsThrough act as s log (EStateM.run (forM as (noted act)) (s, log)) := by
  induction as generalizing s log with
  | nil =>
      have hend : RunsThrough act [] s log (.ok () (s, log ++ [])) := .completed rfl
      rwa [List.append_nil] at hend
  | cons a as ih =>
      have hfirst : EStateM.run (forM (a :: as) act) s =
          match (act a).run s with
          | .ok _ s' => EStateM.run (forM as act) s'
          | .error e s' => .error e s' := by
        rw [List.forM_cons, EStateM.run_bind]
        cases (act a).run s <;> rfl
      rw [List.forM_cons, EStateM.run_bind, run_noted]
      cases ha : (act a).run s with
      | error e s' =>
          rw [ha] at hfirst
          have hsplit : a :: as = [] ++ a :: as := rfl
          exact .stopped hsplit rfl ha hfirst
      | ok u s' =>
          rw [ha] at hfirst
          show RunsThrough act (a :: as) s log (EStateM.run (forM as (noted act)) (s', log ++ [a]))
          have hrest := ih s' (log ++ [a])
          generalize EStateM.run (forM as (noted act)) (s', log ++ [a]) = result at hrest ⊢
          cases hrest with
          | completed whole =>
              rw [List.append_assoc]
              exact .completed (hfirst.trans whole)
          | @stopped before after b mid s'' e split fine fault whole =>
              rw [List.append_assoc]
              have hsplit : a :: as = (a :: before) ++ b :: after := congrArg (a :: ·) split
              refine .stopped hsplit ?_ fault (hfirst.trans whole)
              rw [List.forM_cons, EStateM.run_bind, ha]
              exact fine

end Failing

/-- **A walk is the recursion on its tree.** The walk that works off a list of jobs makes the calls
of the recursive one, whatever its visitors do: it tells them `n.notices` in this order, and a
visitor that is told only when nodes are entered is told so in the same order. If the visitors keep
a state and may fail, they are told up to the first failure, that one included, and the state is
left as the recursion leaves it. The notices come from the calls `n.calls`: each spot that can be
reached through named children is entered once and left once, with the node from which it was
reached, and all below it is entered and left before it is left. -/
theorem traverse_follows_notices (n : Node) :
    (∀ {m : Type → Type} [Monad m] [LawfulMonad m] (enter leave : Visit → m Unit),
      traverse enter leave n = visit enter leave [] n) ∧
    (∀ {m : Type → Type} [Monad m] [LawfulMonad m] (enter leave : Node → Option Node → m Unit),
      traverse (told enter) (told leave) n = forM n.notices (Notice.perform enter leave) ∧
      traverse (told enter) (fun _ => pure ()) n =
        forM (n.notices.filter Notice.isEnter) (Notice.perform enter leave)) ∧
    (∀ {ε σ : Type} (enter leave : Node → Option Node → EStateM ε σ Unit) (s : σ),
      let act := Notice.perform enter leave
      let run := traverse (told fun m p => noted act (.enter m p))
        (told fun m p => noted act (.leave m p)) n
      RunsThrough act n.notices s [] (run.run (s, []))) ∧
    n.notices = n.calls.map Call.notice ∧ n.calls.length = 2 * n.walked.length ∧ n.calls.Nodup ∧
    (∀ t : Spot, (.enter t ∈ n.calls ↔ t.Reached n) ∧ (.leave t ∈ n.calls ↔ t.Reached n)) ∧
    ∀ (t : Spot) (pre post : List Call), n.calls = pre ++ .leave t :: post →
      ∀ u : Spot, u.Reached n → t ∈ u.above → .enter u ∈ pre ∧ .leave u ∈ pre := by
  refine ⟨fun enter leave => traverse_eq_visit enter leave n, ?_, ?_, n.notices_eq_map_calls,
    Node.length_callsFrom (.start n) n, n.calls_nodup, fun t => Node.mem_calls_iff, ?_⟩
  · intro m _ _ enter leave
    exact ⟨traverse_told enter leave n, traverse_told_of_no_leave enter leave n⟩
  · intro ε σ enter leave s act run
    have hact : Notice.perform (fun m p => noted act (.enter m p))
        (fun m p => noted act (.leave m p)) = noted act := by
      funext e
      cases e <;> rfl
    have hrun : run = forM n.notices (noted act) := by
      rw [← hact]
      exact traverse_told _ _ n
    rw [hrun]
    exact run_forM_noted act n.notices s []
  · intro t pre post hn u hu ht
    exact Call.mem_of_leave hn hu ht

/-- A name in a call. -/
def nameLeaf : Node :=
  .node { id := 3, kind := "identifier", named := true, field := some "function", row := 0
          text := some [102] } []

/-- The call, with the token that opens its arguments. -/
def callLeaf : Node :=
  .node { id := 2, kind := "call_expression", named := true, field := none, row := 0
          text := none }
    [nameLeaf, .node { id := 4, kind := "(", named := false, field := none, row := 0
                       text := none } []]

/-- A program with a keyword and the call. -/
def callTree : Node :=
  .node { id := 0, kind := "program", named := true, field := none, row := 0, text := none }
    [.node { id := 1, kind := "function", named := false, field := none, row := 0
             text := none } [], callLeaf]

/-- A walk through this program passes over the tokens. If the visitors fail when the name is left,
the call is not left any more. -/
theorem traverse_callTree :
    let visitor (e : Notice) : EStateM String (List Notice) Unit := do
      modify (· ++ [e])
      if e = .leave nameLeaf (some callLeaf) then throw "left"
    EStateM.run (traverse (told fun n p => visitor (.enter n p))
        (told fun n p => visitor (.leave n p)) callTree) [] =
      .error "left" [.enter callTree none, .enter callLeaf (some callTree),
        .enter nameLeaf (some callLeaf), .leave nameLeaf (some callLeaf)] := by
  intro visitor
  rw [((traverse_follows_notices callTree).2.1 _ _).1]
  rfl

end ScopeScore
