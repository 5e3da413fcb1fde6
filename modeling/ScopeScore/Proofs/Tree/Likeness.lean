import ScopeScore.Proofs.Analyzer.Charge
import ScopeScore.Tree.Name
import Mathlib.Data.List.Forall2

set_option autoImplicit false

/-! # Trees that read alike

Charging and naming see little of a tree: the kind of a node, the line where it starts, its text, the
child that it holds under a field, and the fragments of a string. A relation between trees that keeps
all this is a `Node.Likeness`. A child need not even be kept if it is of a kind that says nothing
where it stands (`Kind.isMute`). Scoring alone sees less (`Node.ScoredAlike`).

**`Likeness.penalties_eq`**, **`Likeness.memberPath_eq`** and the lemmas around them say that related
trees are charged for the same and spell the same names.
-/

namespace ScopeScore

theorem isSome_eq_of_rel {α β : Type} {S : α → β → Prop} {o : Option α} {o' : Option β}
    (h : Option.Rel S o o') : o'.isSome = o.isSome := by
  cases h <;> rfl

theorem cases_of_rel {α β : Type} {S : α → β → Prop} {o : Option α} {o' : Option β}
    (h : Option.Rel S o o') :
    o = none ∧ o' = none ∨ ∃ c c', o = some c ∧ o' = some c' ∧ S c c' := by
  cases h with
  | none => exact Or.inl ⟨rfl, rfl⟩
  | some hc => exact Or.inr ⟨_, _, rfl, rfl, hc⟩

/-- The kinds of nodes that say something to whoever looks at their parent: names, paths, literals,
and the operators that count. -/
def Kind.speaking : List Kind :=
  identifiers ++ members ++ [number, string, thisExpression, "||", "in"]

/-- Does a node of this kind say nothing to whoever looks at its parent? -/
def Kind.isMute (k : Kind) : Bool := !speaking.contains k

namespace Kind

theorem ne_of_isMute {j k : Kind} (h : k.isMute = true) (hj : j ∈ speaking) : k ≠ j := by
  rintro rfl
  rw [isMute, List.contains_iff_mem.2 hj] at h
  cases h

theorem isIdentifier_of_isMute {k : Kind} (h : k.isMute = true) : k.isIdentifier = false := by
  rw [isIdentifier, List.contains_eq_mem, decide_eq_false_iff_not]
  intro hmem
  exact ne_of_isMute h (List.mem_append_left _ (List.mem_append_left _ hmem)) rfl

theorem isMember_of_isMute {k : Kind} (h : k.isMute = true) : k.isMember = false := by
  rw [isMember, List.contains_eq_mem, decide_eq_false_iff_not]
  intro hmem
  exact ne_of_isMute h (List.mem_append_left _ (List.mem_append_right _ hmem)) rfl

theorem isMute_of_isFunction {k : Kind} (h : k.isFunction = true) : k.isMute = true := by
  have hmem : k ∈ functions := List.contains_iff_mem.1 h
  have hall : ∀ j ∈ functions, isMute j = true := by decide
  exact hall k hmem

theorem isMute_parenthesizedExpression : isMute parenthesizedExpression = true := by decide

end Kind

namespace Node

theorem rel_find?_of_forall₂ {S : Node → Node → Prop} {q : Node → Bool} {cs cs' : List Node}
    (h : List.Forall₂ S cs cs') (hq : ∀ c c', S c c' → q c' = q c) :
    Option.Rel S (cs.find? q) (cs'.find? q) := by
  induction h with
  | nil => exact .none
  | @cons c c' cs cs' hc _ ih =>
      rw [List.find?_cons, List.find?_cons, hq c c' hc]
      cases q c with
      | true => exact .some hc
      | false => exact ih

/-- Of a child `c` and the child `c'` in its place, the same can be read: they are related, or
neither says anything. -/
def ReadAlike (R : Node → Node → Prop) (c c' : Node) : Prop :=
  R c c' ∨ c.kind.isMute = true ∧ c'.kind.isMute = true

/-- Related trees look alike wherever they are looked at. -/
structure Likeness (R : Node → Node → Prop) : Prop where
  kind : ∀ {n n' : Node}, R n n' → n'.kind = n.kind
  line : ∀ {n n' : Node}, R n n' → n'.line = n.line
  text : ∀ {n n' : Node}, R n n' → n'.text = n.text
  child : ∀ {n n' : Node}, R n n' → ∀ f : String,
    Option.Rel (ReadAlike R) (n.child? f) (n'.child? f)
  fragments : ∀ {n n' : Node}, R n n' →
    n'.stringFragments.map Node.text = n.stringFragments.map Node.text

/-- Related trees look alike to whoever scores them. -/
structure ScoredAlike (R : Node → Node → Prop) : Prop where
  kind : ∀ {n n' : Node}, R n n' → n'.kind = n.kind
  line : ∀ {n n' : Node}, R n n' → n'.line = n.line
  penalties : ∀ {n n' : Node}, R n n' → n'.penalties = n.penalties

/-! ## What mute nodes do not say -/

theorem identifierName?_of_isMute {c : Node} (h : c.kind.isMute = true) :
    identifierName? (some c) = .ok none := by
  rw [identifierName?, Kind.isIdentifier_of_isMute h]
  rfl

theorem literalValue?_of_isMute {c : Node} (h : c.kind.isMute = true) :
    literalValue? (some c) = .ok none := by
  have hnumber : (c.kind == Kind.number) = false :=
    beq_false_of_ne (Kind.ne_of_isMute h (by decide))
  have hstring : (c.kind == Kind.string) = false :=
    beq_false_of_ne (Kind.ne_of_isMute h (by decide))
  rw [literalValue?, hnumber, hstring]
  rfl

namespace Likeness

variable {R : Node → Node → Prop} {n n' : Node} {o o' : Option Node}

/-! ## Charges -/

theorem has_iff (hR : Likeness R) (h : R n n') (f : String) : n'.Has f ↔ n.Has f := by
  rw [← isSome_child?_iff, ← isSome_child?_iff, isSome_eq_of_rel (hR.child h f)]

theorem map_kind_eq_iff (hR : Likeness R) (h : Option.Rel (ReadAlike R) o o') {k : Kind}
    (hk : k ∈ Kind.speaking) : o'.map Node.kind = some k ↔ o.map Node.kind = some k := by
  cases h with
  | none => exact Iff.rfl
  | some hc =>
      rcases hc with hc | ⟨hc, hc'⟩
      · rw [Option.map_some, Option.map_some, hR.kind hc]
      · simp [Kind.ne_of_isMute hc hk, Kind.ne_of_isMute hc' hk]

/-- **Trees that look alike are charged for the same.** -/
theorem penalties_eq (hR : Likeness R) (h : R n n') : n'.penalties = n.penalties := by
  have hor : n'.operator? = some "||" ↔ n.operator? = some "||" :=
    hR.map_kind_eq_iff (hR.child h _) (by decide)
  have hin : n'.operator? = some "in" ↔ n.operator? = some "in" :=
    hR.map_kind_eq_iff (hR.child h _) (by decide)
  rw [penalties_eq_tariff, penalties_eq_tariff]
  simp only [tariff, hR.kind h, hR.has_iff h, hor, hin]

theorem scoredAlike (hR : Likeness R) : ScoredAlike R := ⟨hR.kind, hR.line, hR.penalties_eq⟩

/-! ## Names -/

theorem readText_eq (hR : Likeness R) (h : R n n') : n'.readText = n.readText := by
  rw [readText, readText, hR.text h]

theorem identifierName?_eq (hR : Likeness R) (h : Option.Rel (ReadAlike R) o o') :
    identifierName? o' = identifierName? o := by
  cases h with
  | none => rfl
  | some hc =>
      rcases hc with hc | ⟨hc, hc'⟩
      · rw [identifierName?, identifierName?, hR.kind hc, hR.readText_eq hc]
      · rw [identifierName?_of_isMute hc, identifierName?_of_isMute hc']

/-- Reading some nodes is reading their texts. -/
theorem mapM_readText_eq_of_map_text_eq {cs cs' : List Node}
    (h : cs'.map Node.text = cs.map Node.text) : cs'.mapM readText = cs.mapM readText := by
  induction cs generalizing cs' with
  | nil => rw [List.map_eq_nil_iff.1 h]
  | cons c cs ih =>
      obtain ⟨c', cs', rfl, htext, hrest⟩ := List.map_eq_cons_iff.1 h
      rw [List.mapM_cons, List.mapM_cons, ih hrest, readText, readText, htext]

theorem literalValue?_eq (hR : Likeness R) (h : Option.Rel (ReadAlike R) o o') :
    literalValue? o' = literalValue? o := by
  cases h with
  | none => rfl
  | some hc =>
      rcases hc with hc | ⟨hc, hc'⟩
      · simp only [literalValue?, hR.kind hc, hR.readText_eq hc,
          mapM_readText_eq_of_map_text_eq (hR.fragments hc)]
      · rw [literalValue?_of_isMute hc, literalValue?_of_isMute hc']

theorem baseName_eq (hR : Likeness R) (h : Option.Rel (ReadAlike R) o o') :
    baseName o' = baseName o := by
  have hthis : (o'.any fun n => n.kind == Kind.thisExpression) =
      o.any fun n => n.kind == Kind.thisExpression := by
    cases h with
    | none => rfl
    | some hc =>
        rcases hc with hc | ⟨hc, hc'⟩
        · rw [Option.any_some, Option.any_some, hR.kind hc]
        · rw [Option.any_some, Option.any_some,
            beq_false_of_ne (Kind.ne_of_isMute hc (by decide)),
            beq_false_of_ne (Kind.ne_of_isMute hc' (by decide))]
  rw [baseName, baseName, hthis, hR.identifierName?_eq h]

theorem segmentName_eq (hR : Likeness R) (h : R n n') : n'.segmentName = n.segmentName := by
  have hselector : Option.Rel (ReadAlike R) n.selector? n'.selector? := by
    rw [selector?, selector?, hR.kind h]
    exact hR.child h _
  rw [segmentName, segmentName, hR.identifierName?_eq hselector, hR.literalValue?_eq hselector]

end Likeness

/-- The path of the object of a member node. -/
def objectPath : Option Node → Read (List String)
  | some o => if o.kind.isMember then o.memberPath else List.singleton <$> baseName (some o)
  | none => List.singleton <$> baseName none

theorem memberPath_eq_objectPath (n : Node) :
    n.memberPath = do return (← objectPath (n.child? "object")) ++ [← n.segmentName] := by
  rw [memberPath]
  cases n.child? "object" with
  | none => rfl
  | some o =>
      by_cases hmember : o.kind.isMember = true
      · simp only [objectPath, hmember, if_true]
      · simp only [objectPath, hmember]
        rfl

/-- **Trees that look alike spell the same path**, down to the base of the chain. -/
theorem Likeness.memberPath_eq {R : Node → Node → Prop} (hR : Likeness R) {n n' : Node}
    (h : R n n') : n'.memberPath = n.memberPath := by
  have hobject : objectPath (n'.child? "object") = objectPath (n.child? "object") := by
    have hchild := hR.child h "object"
    rcases cases_of_rel hchild with ⟨ho, ho'⟩ | ⟨o, o', ho, ho', hc⟩
    · rw [ho, ho']
    · have hbase := hR.baseName_eq hchild
      rw [ho, ho'] at hbase
      rw [ho, ho', objectPath, objectPath, hbase]
      rcases hc with hc | ⟨hc, hc'⟩
      · have hsize : o.size < n.size := size_child?_lt ho
        rw [hR.kind hc, hR.memberPath_eq hc]
      · rw [Kind.isMember_of_isMute hc, Kind.isMember_of_isMute hc']
        rfl
  rw [memberPath_eq_objectPath, memberPath_eq_objectPath, hobject, hR.segmentName_eq h]
termination_by n.size

end Node

end ScopeScore
