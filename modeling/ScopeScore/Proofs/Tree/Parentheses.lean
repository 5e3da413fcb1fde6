import ScopeScore.Proofs.Tree.Likeness
import ScopeScore.Tree.Forest
import ScopeScore.Tree.Walk

set_option autoImplicit false

/-! # Parentheses around functions

A function may stand in parentheses, in one pair or in many, and means the same. `Node.Wraps ρ n n'`
says that `n'` is `n` with parentheses around some of the functions below it, and with its nodes
numbered anew by `ρ`. `Place.Wraps` says the same of a place inside a tree, where the nodes above it
may be in parentheses too.

* `Node.likeness_wraps`: whoever reads the tree cannot tell the difference, since a function says as
  little where it stands as a pair of parentheses does.
* `visit_inParens`: a walk goes through parentheses as if they were not there, if its visitors pass
  over them.
-/

namespace ScopeScore

/-- A pair of parentheses, without what stands in it. -/
structure Parens where
  label : Label
  /-- The tokens in front of the node in parentheses. -/
  opening : List Node := []
  /-- The tokens behind it. -/
  closing : List Node := []
  kind : label.kind = Kind.parenthesizedExpression
  named : label.named = true
  tokens : ∀ t ∈ opening ++ closing, t.named = false

/-- The node of a pair of parentheses around `n`. -/
def Parens.around (p : Parens) (n : Node) : Node := .node p.label (p.opening ++ n :: p.closing)

/-- Labels that agree in everything but the number, which is changed by `ρ`, and the field. -/
structure Label.Renumbers (ρ : Nat → Nat) (l l' : Label) : Prop where
  id : l'.id = ρ l.id
  kind : l'.kind = l.kind
  named : l'.named = l.named
  row : l'.row = l.row
  text : l'.text = l.text

namespace Node

/-- A node in some pairs of parentheses, the innermost pair given first. -/
def inParens : Node → List Parens → Node
  | n, [] => n
  | n, p :: ps => (p.around n).inParens ps

/-- The nodes of the pairs of parentheses around a node, the innermost first. -/
def parensAround : Node → List Parens → List Node
  | _, [] => []
  | n, p :: ps => p.around n :: (p.around n).parensAround ps

mutual

/-- The tree `n'` is `n` with parentheses around some of the functions below it. The nodes that both
have are numbered in `n'` by `ρ`. The fields of `n` and `n'` themselves do not matter. -/
inductive Wraps (ρ : Nat → Nat) : Node → Node → Prop
  | node {l l' : Label} {cs cs' : List Node} (label : l.Renumbers ρ l')
      (children : List.Forall₂ (Replaces ρ) cs cs') : Wraps ρ (.node l cs) (.node l' cs')

/-- The child `c'` stands where `c` stood: it is `c`, or `c` is a function and `c'` the outermost of
some parentheses around it. Then the field is that of the parentheses, and the function has none. -/
inductive Replaces (ρ : Nat → Nat) : Node → Node → Prop
  | kept {c c' : Node} (tree : Wraps ρ c c') (field : c'.label.field = c.label.field) :
      Replaces ρ c c'
  | wrapped {c c' : Node} {ps : List Parens} (function : c.kind.isFunction = true)
      (named : c.named = true) (tree : Wraps ρ c c') (bare : c'.label.field = none)
      (pairs : ps ≠ []) (field : (c'.inParens ps).label.field = c.label.field) :
      Replaces ρ c (c'.inParens ps)

end

end Node

/-- The places are those of one node in a tree and in the tree with parentheses. The way down to the
node may lead through parentheses, which then are above it. -/
inductive Place.Wraps (ρ : Nat → Nat) : Place → Place → Prop
  | top {n n' : Node} (tree : n.Wraps ρ n') : Place.Wraps ρ (Place.top n) (Place.top n')
  | within {p p' : Place} {c c' : Node} {i : Nat} {ps : List Parens} (parent : Place.Wraps ρ p p')
      (child : p.node.children[i]? = some c)
      (child' : p'.node.children[i]? = some (c'.inParens ps)) (tree : c.Wraps ρ c') :
      Place.Wraps ρ { node := c, above := p.node :: p.above }
        { node := c', above := c'.parensAround ps ++ p'.node :: p'.above }

/-! ## Parentheses -/

namespace Node

theorem kind_inParens {ps : List Parens} (h : ps ≠ []) (n : Node) :
    (n.inParens ps).kind = Kind.parenthesizedExpression := by
  induction ps generalizing n with
  | nil => exact absurd rfl h
  | cons p ps ih =>
      cases ps with
      | nil => exact p.kind
      | cons q qs => exact ih (List.cons_ne_nil q qs) (p.around n)

theorem named_inParens (ps : List Parens) {n : Node} (h : n.named = true) :
    (n.inParens ps).named = true := by
  induction ps generalizing n with
  | nil => exact h
  | cons p ps ih => exact ih (n := p.around n) p.named

theorem kind_of_mem_parensAround {ps : List Parens} {n q : Node} (h : q ∈ n.parensAround ps) :
    q.kind = Kind.parenthesizedExpression := by
  induction ps generalizing n with
  | nil => cases h
  | cons p ps ih =>
      rcases List.mem_cons.1 h with rfl | h
      · exact p.kind
      · exact ih h

/-- The only node in parentheses that is walked is the one that they are around. -/
theorem filter_named_around (p : Parens) {n : Node} (h : n.named = true) :
    (p.around n).children.filter Node.named = [n] := by
  have htokens : ∀ cs : List Node, (∀ t ∈ cs, t ∈ p.opening ++ p.closing) →
      cs.filter Node.named = [] := by
    intro cs hcs
    refine List.filter_eq_nil_iff.2 fun t ht => ?_
    rw [p.tokens t (hcs t ht)]
    exact Bool.false_ne_true
  show (p.opening ++ n :: p.closing).filter Node.named = [n]
  rw [List.filter_append, List.filter_cons_of_pos h,
    htokens p.opening fun t ht => List.mem_append_left _ ht,
    htokens p.closing fun t ht => List.mem_append_right _ ht]
  rfl

end Node

section Visit

variable {m : Type → Type} [Monad m] [LawfulMonad m] {enter leave : Visit → m Unit}

/-- Do the visitors pass over parentheses? -/
def PassesParens (visitor : Visit → m Unit) : Prop :=
  ∀ v : Visit, v.node.kind = Kind.parenthesizedExpression → visitor v = pure ()

/-- **A walk goes through parentheses as if they were not there.** -/
theorem visit_inParens (henter : PassesParens enter) (hleave : PassesParens leave)
    (ps : List Parens) {n : Node} (hn : n.named = true) (path : List Node) :
    visit enter leave path (n.inParens ps) = visit enter leave (n.parensAround ps ++ path) n := by
  induction ps generalizing n with
  | nil => rfl
  | cons p ps ih =>
      have hpair : ∀ path, visit enter leave path (p.around n) =
          visit enter leave (p.around n :: path) n := by
        intro path
        rw [visit_eq, henter { node := p.around n, path := path } p.kind,
          hleave { node := p.around n, path := path } p.kind, visitAll_eq_forM,
          Node.filter_named_around p hn]
        simp
      show visit enter leave path ((p.around n).inParens ps) = _
      rw [ih (n := p.around n) p.named, hpair]
      rfl

end Visit

/-! ## What can be read off a tree with parentheses -/

namespace Node

variable {ρ : Nat → Nat} {n n' c c' : Node}

namespace Wraps

theorem label (h : Wraps ρ n n') : n.label.Renumbers ρ n'.label := by
  cases h with
  | node label children => exact label

theorem children (h : Wraps ρ n n') : List.Forall₂ (Replaces ρ) n.children n'.children := by
  cases h with
  | node label children => exact children

theorem kind_eq (h : Wraps ρ n n') : n'.kind = n.kind := h.label.kind

theorem named_eq (h : Wraps ρ n n') : n'.named = n.named := h.label.named

end Wraps

namespace Replaces

theorem field_eq (h : Replaces ρ c c') : c'.label.field = c.label.field := by
  cases h with
  | kept tree field => exact field
  | wrapped function named tree bare pairs field => exact field

theorem readAlike (h : Replaces ρ c c') : ReadAlike (Wraps ρ) c c' := by
  cases h with
  | kept tree field => exact Or.inl tree
  | wrapped function named tree bare pairs field =>
      refine Or.inr ⟨Kind.isMute_of_isFunction function, ?_⟩
      rw [kind_inParens pairs]
      exact Kind.isMute_parenthesizedExpression

end Replaces

/-- Neither a function nor a pair of parentheses is a fragment of a string. -/
theorem map_text_fragments {cs cs' : List Node} (h : List.Forall₂ (Replaces ρ) cs cs') :
    ((cs'.filter Node.named).filter fun c => c.kind == Kind.stringFragment).map Node.text =
      ((cs.filter Node.named).filter fun c => c.kind == Kind.stringFragment).map Node.text := by
  induction h with
  | nil => rfl
  | @cons c c' cs cs' hc _ ih =>
      rw [List.filter_filter, List.filter_filter] at ih ⊢
      cases hc with
      | kept tree field =>
          rw [List.filter_cons, List.filter_cons, tree.kind_eq, tree.named_eq]
          split
          · rw [List.map_cons, List.map_cons, ih]
            exact congrArg (· :: _) tree.label.text
          · exact ih
      | wrapped function named tree bare pairs field =>
          have hmem : c.kind ∈ Kind.functions := List.contains_iff_mem.1 function
          have hne : ∀ k ∈ Kind.functions, (k == Kind.stringFragment) = false := by decide
          have hparens : (Kind.parenthesizedExpression == Kind.stringFragment) = false := by decide
          rw [List.filter_cons, List.filter_cons, kind_inParens pairs, hne _ hmem, hparens]
          exact ih

/-- **A tree with parentheses around functions looks like the tree without.** -/
theorem likeness_wraps (ρ : Nat → Nat) : Likeness (Wraps ρ) where
  kind h := h.kind_eq
  line h := congrArg (· + 1) h.label.row
  text h := h.label.text
  child h f := by
    have hfield : ∀ c c', Replaces ρ c c' → isUnder f c' = isUnder f c := by
      intro c c' hc
      rw [isUnder, isUnder, hc.field_eq]
    rcases cases_of_rel (rel_find?_of_forall₂ h.children hfield) with
      ⟨hc, hc'⟩ | ⟨c, c', hc, hc', hreplaces⟩
    · rw [child?, child?, hc, hc']
      exact .none
    · rw [child?, child?, hc, hc']
      exact .some hreplaces.readAlike
  fragments h := map_text_fragments h.children

end Node

/-! ## Above a place -/

/-- Is this anything but a pair of parentheses? -/
def Node.isNoParens (n : Node) : Bool := n.kind != Kind.parenthesizedExpression

theorem Node.find?_parensAround (n : Node) (ps : List Parens) :
    (n.parensAround ps).find? isNoParens = none := by
  refine List.find?_eq_none.2 fun q hq => ?_
  rw [isNoParens, kind_of_mem_parensAround hq]
  decide

/-- Above two places the nearest node that is no pair of parentheses is the same one. -/
def SurroundedAlike (ρ : Nat → Nat) (above above' : List Node) : Prop :=
  Option.Rel (Node.Wraps ρ) (above.find? Node.isNoParens) (above'.find? Node.isNoParens)

namespace SurroundedAlike

variable {ρ : Nat → Nat} {above above' : List Node}

theorem cons (h : SurroundedAlike ρ above above') {n n' : Node} (hn : n.Wraps ρ n') :
    SurroundedAlike ρ (n :: above) (n' :: above') := by
  have hsame : n'.isNoParens = n.isNoParens := by rw [Node.isNoParens, Node.isNoParens, hn.kind_eq]
  rw [SurroundedAlike, List.find?_cons, List.find?_cons, hsame]
  cases n.isNoParens with
  | true => exact .some hn
  | false => exact h

/-- Parentheses are passed over. -/
theorem parens (h : SurroundedAlike ρ above above') (n : Node) (ps : List Parens) :
    SurroundedAlike ρ above (n.parensAround ps ++ above') := by
  rw [SurroundedAlike, List.find?_append, Node.find?_parensAround, Option.none_or]
  exact h

end SurroundedAlike

namespace Place.Wraps

variable {ρ : Nat → Nat} {p p' : Place}

theorem node (h : p.Wraps ρ p') : p.node.Wraps ρ p'.node := by
  cases h with
  | top tree => exact tree
  | within parent child child' tree => exact tree

theorem above (h : p.Wraps ρ p') : SurroundedAlike ρ p.above p'.above := by
  induction h with
  | top tree => exact .none
  | within parent child child' tree ih => exact (ih.cons parent.node).parens _ _

end Place.Wraps

end ScopeScore
