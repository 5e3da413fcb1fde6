import ScopeScore.Proofs.Tree.Notices
import ScopeScore.Proofs.Tree.Parentheses

set_option autoImplicit false

/-! # Tokens that nothing refers to

Keywords and punctuation are nodes of a tree like others, and some have the kind of a construct: the
keyword of a function has the kind of a function. A token that is in no field of its parent is out
of reach for whoever reads the tree. `Node.Trims ρ n n'` says that `n'` is `n` without some such
tokens below it, each dropped with all that is in it, and with the nodes left numbered anew by `ρ`.
`Place.Trims` says the same of a place inside a tree: the node there and those above it are kept.

* `Node.Thinned.forall₂_filter`: choosing among some children, the tokens apart, leaves related
  children on both sides. All that a reader does is such a choice.
* `Node.likeness_trims`: whoever reads the tree cannot tell the difference.
-/

namespace ScopeScore

namespace Node

/-- Is this a token that nothing refers to? It has no name and is in no field. -/
def isToken (n : Node) : Bool := !n.named && n.label.field.isNone

/-- The list `cs'` is `cs` without some tokens, and the others are related by `S`. -/
inductive Thinned (S : Node → Node → Prop) : List Node → List Node → Prop
  | nil : Thinned S [] []
  | keep {c c' : Node} {cs cs' : List Node} (child : S c c') (rest : Thinned S cs cs') :
      Thinned S (c :: cs) (c' :: cs')
  | drop {c : Node} {cs cs' : List Node} (token : c.isToken = true) (rest : Thinned S cs cs') :
      Thinned S (c :: cs) cs'

/-- The tree `n'` is `n` without some tokens below it. The nodes that are left are numbered in `n'`
by `ρ`. -/
inductive Trims (ρ : Nat → Nat) : Node → Node → Prop
  | node {l : Label} {cs cs' : List Node} (children : Thinned (Trims ρ) cs cs') :
      Trims ρ (.node l cs) (.node { l with id := ρ l.id } cs')

end Node

/-- The places are those of one node in a tree and in the tree without some tokens. Neither the node
nor any node above it is a token that was dropped. -/
inductive Place.Trims (ρ : Nat → Nat) : Place → Place → Prop
  | top {n n' : Node} (tree : n.Trims ρ n') : Place.Trims ρ (Place.top n) (Place.top n')
  | within {p p' : Place} {before before' after after' : List Node} {c c' : Node}
      (parent : Place.Trims ρ p p') (split : p.node.children = before ++ c :: after)
      (split' : p'.node.children = before' ++ c' :: after')
      (left : Node.Thinned (Node.Trims ρ) before before') (tree : c.Trims ρ c')
      (right : Node.Thinned (Node.Trims ρ) after after') :
      Place.Trims ρ { node := c, above := p.node :: p.above }
        { node := c', above := p'.node :: p'.above }

namespace Node

/-! ## Choosing among children -/

theorem named_of_isToken {c : Node} (h : c.isToken = true) : c.named = false := by
  simp only [isToken, Bool.and_eq_true, Bool.not_eq_true'] at h
  exact h.1

theorem isUnder_of_isToken {c : Node} (h : c.isToken = true) (f : String) :
    c.isUnder f = false := by
  simp only [isToken, Bool.and_eq_true, Option.isNone_iff_eq_none] at h
  rw [isUnder, h.2]
  rfl

/-- **Tokens are never chosen**: a choice that passes them over, and that does not tell related
nodes apart, leaves related nodes. -/
theorem Thinned.forall₂_filter {S : Node → Node → Prop} {q : Node → Bool} {cs cs' : List Node}
    (h : Thinned S cs cs') (hq : ∀ c c', S c c' → q c' = q c)
    (htoken : ∀ c, c.isToken = true → q c = false) :
    List.Forall₂ S (cs.filter q) (cs'.filter q) := by
  induction h with
  | nil => exact .nil
  | @keep c c' cs cs' child rest ih =>
      rw [List.filter_cons, List.filter_cons, hq c c' child]
      by_cases hc : q c = true
      · rw [if_pos hc, if_pos hc]
        exact .cons child ih
      · rw [if_neg hc, if_neg hc]
        exact ih
  | @drop c cs cs' token rest ih =>
      rw [List.filter_cons, htoken c token]
      exact ih

theorem rel_head?_of_forall₂ {S : Node → Node → Prop} {cs cs' : List Node}
    (h : List.Forall₂ S cs cs') : Option.Rel S cs.head? cs'.head? := by
  cases h with
  | nil => exact .none
  | cons hc _ => exact .some hc

variable {ρ : Nat → Nat} {n n' : Node}

namespace Trims

theorem children (h : Trims ρ n n') : Thinned (Trims ρ) n.children n'.children := by
  cases h with
  | node children => exact children

theorem kind_eq (h : Trims ρ n n') : n'.kind = n.kind := by
  cases h with
  | node children => rfl

theorem named_eq (h : Trims ρ n n') : n'.named = n.named := by
  cases h with
  | node children => rfl

theorem line_eq (h : Trims ρ n n') : n'.line = n.line := by
  cases h with
  | node children => rfl

theorem text_eq (h : Trims ρ n n') : n'.text = n.text := by
  cases h with
  | node children => rfl

theorem isUnder_eq (h : Trims ρ n n') (f : String) : n'.isUnder f = n.isUnder f := by
  cases h with
  | node children => rfl

/-- The walk goes on to related nodes. -/
theorem namedChildren (h : Trims ρ n n') :
    List.Forall₂ (Trims ρ) n.namedChildren n'.namedChildren :=
  h.children.forall₂_filter (fun _ _ hc => hc.named_eq) fun _ => named_of_isToken

/-- In a field there are related nodes, or nothing on both sides. -/
theorem child? (h : Trims ρ n n') (f : String) :
    Option.Rel (Trims ρ) (n.child? f) (n'.child? f) := by
  have hchosen := h.children.forall₂_filter (q := isUnder f) (fun _ _ hc => hc.isUnder_eq f)
    fun _ htoken => isUnder_of_isToken htoken f
  rw [Node.child?, Node.child?, ← List.head?_filter, ← List.head?_filter]
  exact rel_head?_of_forall₂ hchosen

theorem map_text_eq {cs cs' : List Node} (h : List.Forall₂ (Trims ρ) cs cs') :
    cs'.map Node.text = cs.map Node.text := by
  induction h with
  | nil => rfl
  | cons hc _ ih => rw [List.map_cons, List.map_cons, ih, hc.text_eq]

/-- Related strings have the same fragments, since these are named. -/
theorem map_text_stringFragments (h : Trims ρ n n') :
    n'.stringFragments.map Node.text = n.stringFragments.map Node.text := by
  refine map_text_eq (ρ := ρ) ?_
  rw [stringFragments, stringFragments, Node.namedChildren, Node.namedChildren,
    List.filter_filter, List.filter_filter]
  refine h.children.forall₂_filter ?_ ?_
  · intro c c' hc
    rw [hc.kind_eq, hc.named_eq]
  · intro c htoken
    rw [named_of_isToken htoken, Bool.and_false]

end Trims

/-- **A tree without tokens looks like the tree with them.** -/
theorem likeness_trims (ρ : Nat → Nat) : Likeness (Trims ρ) where
  kind h := h.kind_eq
  line h := h.line_eq
  text h := h.text_eq
  child h f := by
    rcases cases_of_rel (h.child? f) with ⟨hc, hc'⟩ | ⟨c, c', hc, hc', htrims⟩
    · rw [hc, hc']
      exact .none
    · rw [hc, hc']
      exact .some (Or.inl htrims)
  fragments h := h.map_text_stringFragments

end Node

/-! ## Above a place and below -/

namespace Place.Trims

variable {ρ : Nat → Nat} {p p' : Place}

theorem node (h : p.Trims ρ p') : p.node.Trims ρ p'.node := by
  cases h with
  | top tree => exact tree
  | within parent split split' left tree right => exact tree

theorem above (h : p.Trims ρ p') : List.Forall₂ (Node.Trims ρ) p.above p'.above := by
  induction h with
  | top tree => exact .nil
  | within parent split split' left tree right ih => exact .cons parent.node ih

end Place.Trims

/-- A walk enters named nodes only, the one apart where it starts. -/
theorem Node.named_of_mem_walked {n : Node} {t : Spot} (ht : t ∈ n.walked) :
    t = .start n ∨ t.node.named = true := by
  cases mem_walked_iff.1 ht with
  | start => exact Or.inl rfl
  | under parent child named => exact Or.inr named

end ScopeScore
