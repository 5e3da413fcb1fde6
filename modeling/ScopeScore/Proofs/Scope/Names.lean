import ScopeScore.Proofs.Report.Rows
import ScopeScore.Proofs.Tree.Likeness

set_option autoImplicit false

/-! # What scopes can be called

A report tells a program from its functions by the signature alone: what is called `*` is taken for
a program. Whether that is right depends on the tree. A name is read from the texts of its nodes,
from one identifier or from the segments of a member path, and a path has points in it.

* `Node.nodes`: all nodes of a tree, keywords and punctuation too.
* `Node.Legible`: each of them can be read. A parser that gives each node a part of the text, cut
  between characters, has only such trees (`Parser.Legible`).
* `Node.Unmarked`: no identifier reads `*`.

**`Node.signature_eq_marker_iff`**: in a legible tree without such an identifier the program and
nothing else is called `*`. In a legible tree all names can be read (`Node.Legible.nameable`).
-/

namespace ScopeScore

open Spot

/-! ## All nodes of a tree -/

namespace Node

mutual

/-- The nodes of a tree, the tree itself first. -/
def nodes : Node → List Node
  | .node l cs => .node l cs :: nodesAmong cs

/-- The nodes of a forest. -/
def nodesAmong : List Node → List Node
  | [] => []
  | c :: cs => c.nodes ++ nodesAmong cs

end

theorem mem_nodes_self (n : Node) : n ∈ n.nodes := by
  cases n with
  | node l cs => exact List.mem_cons_self

theorem mem_nodesAmong {d : Node} {cs : List Node} :
    d ∈ nodesAmong cs ↔ ∃ c ∈ cs, d ∈ c.nodes := by
  induction cs with
  | nil => simp [nodesAmong]
  | cons c cs ih => simp [nodesAmong, ih]

theorem mem_nodes {n d : Node} : d ∈ n.nodes ↔ d = n ∨ ∃ c ∈ n.children, d ∈ c.nodes := by
  cases n with
  | node l cs => simp [nodes, mem_nodesAmong, children]

theorem mem_nodes_of_mem_children {n c d : Node} (hc : c ∈ n.children) (hd : d ∈ c.nodes) :
    d ∈ n.nodes :=
  mem_nodes.2 (Or.inr ⟨c, hc, hd⟩)

/-- The nodes below a node of a tree are nodes of the tree. -/
theorem mem_nodes_trans {a b : Node} (hab : a ∈ b.nodes) :
    ∀ n : Node, b ∈ n.nodes → a ∈ n.nodes := by
  intro n hb
  rcases mem_nodes.1 hb with rfl | ⟨c, hc, hb⟩
  · exact hab
  · have hsize : c.size < n.size := size_lt_of_mem hc
    exact mem_nodes_of_mem_children hc (mem_nodes_trans hab c hb)
termination_by n => n.size

theorem mem_nodes_of_child? {n c : Node} {f : String} (h : n.child? f = some c) : c ∈ n.nodes :=
  mem_nodes_of_mem_children (List.mem_of_find?_eq_some h) c.mem_nodes_self

theorem mem_nodes_of_mem_stringFragments {n c : Node} (h : c ∈ n.stringFragments) :
    c ∈ n.nodes := by
  have hnamed : c ∈ n.namedChildren := (List.mem_filter.1 h).1
  exact mem_nodes_of_mem_children (List.mem_filter.1 hnamed).1 c.mem_nodes_self

mutual

theorem node_mem_nodes_of_mem_spotsFrom {s t : Spot} :
    ∀ n : Node, s.node = n → t ∈ spotsFrom s n → t.node ∈ n.nodes
  | .node l cs, hn, h => by
      rw [spotsFrom, List.mem_cons] at h
      rw [nodes, List.mem_cons]
      rcases h with rfl | h
      · exact Or.inl hn
      · exact Or.inr (node_mem_nodesAmong_of_mem_spotsUnder 0 cs h)

theorem node_mem_nodesAmong_of_mem_spotsUnder {s t : Spot} :
    ∀ (i : Nat) (cs : List Node), t ∈ spotsUnder s i cs → t.node ∈ nodesAmong cs
  | i, [], h => by simp [spotsUnder] at h
  | i, c :: cs, h => by
      rw [spotsUnder, List.mem_append] at h
      rw [nodesAmong, List.mem_append]
      rcases h with h | h
      · by_cases hc : c.named = true
        · rw [if_pos hc] at h
          exact Or.inl (node_mem_nodes_of_mem_spotsFrom c rfl h)
        · simp [hc] at h
      · exact Or.inr (node_mem_nodesAmong_of_mem_spotsUnder (i + 1) cs h)

end

/-- A walk meets nodes of its tree only. -/
theorem node_mem_nodes_of_mem_walked {n : Node} {v : Spot} (hv : v ∈ n.walked) :
    v.node ∈ n.nodes :=
  node_mem_nodes_of_mem_spotsFrom n rfl hv

/-- The node that may name a scope is a node of the tree, or above it. -/
theorem mem_nodes_of_namingNode? {n p : Node} {v : Spot} {outer : List Node} (hv : v ∈ n.walked)
    (h : Session.namingNode? outer v.visit = some p) : p ∈ n.nodes ∨ p ∈ outer := by
  have hpath : p ∈ v.above.map Spot.node ++ outer := by
    unfold Session.namingNode? at h
    split at h
    · cases h
    · exact List.mem_of_find?_eq_some h
  rcases List.mem_append.1 hpath with hpath | houter
  · obtain ⟨u, hu, rfl⟩ := List.mem_map.1 hpath
    exact Or.inl (node_mem_nodes_of_mem_walked (mem_walked_of_mem_above hv hu))
  · exact Or.inr houter

/-! ## Trees that can be read -/

/-- Can every node of the tree be read? -/
def Legible (n : Node) : Prop := ∀ c ∈ n.nodes, ∃ name, c.readText = .ok name

/-- Does no identifier of the tree read as the marker of a program? -/
def Unmarked (n : Node) : Prop :=
  ∀ c ∈ n.nodes, c.kind.isIdentifier = true → c.readText ≠ .ok Scope.programSignature

/-- Every node of the tree can be read, and what an identifier reads as has the property `P`. -/
def Spells (P : String → Prop) (n : Node) : Prop :=
  ∀ c ∈ n.nodes, ∃ name, c.readText = .ok name ∧ (c.kind.isIdentifier = true → P name)

instance (n : Node) : Decidable n.Legible :=
  decidable_of_iff (∀ c ∈ n.nodes, c.readText.isOk = true)
    (forall₂_congr fun _ _ => isOk_iff_exists)

instance (n : Node) : Decidable n.Unmarked :=
  decidable_of_iff (∀ c ∈ n.nodes, c.kind.isIdentifier = true →
      (c.readText.toOption == some Scope.programSignature) = false)
    (forall₂_congr fun c _ => imp_congr_right fun _ => by
      cases c.readText <;> simp [Except.toOption])

theorem Legible.spells {n : Node} (h : n.Legible) : n.Spells fun _ => True := by
  intro c hc
  obtain ⟨name, hname⟩ := h c hc
  exact ⟨name, hname, fun _ => trivial⟩

theorem Legible.spells_of_unmarked {n : Node} (h : n.Legible) (hn : n.Unmarked) :
    n.Spells fun name => name ≠ Scope.programSignature := by
  intro c hc
  obtain ⟨name, hname⟩ := h c hc
  refine ⟨name, hname, fun hid hmarker => hn c hc hid ?_⟩
  rw [hname, hmarker]

end Node

/-- Can every node of every tree of this parser be read? So it is if the text of each node is a part
of the whole text. -/
def Parser.Legible (parse : Parser) : Prop := ∀ text, (parse text).root.Legible

/-! ## Names that can be read -/

namespace Node

namespace Spells

variable {P : String → Prop} {n m : Node} {o : Option Node}

theorem of_mem (h : n.Spells P) (hm : m ∈ n.nodes) : m.Spells P := fun c hc =>
  h c (mem_nodes_trans hc n hm)

theorem of_child? (h : n.Spells P) {f : String} : ∀ m ∈ n.child? f, m.Spells P := fun _ hm =>
  h.of_mem (mem_nodes_of_child? hm)

theorem readText (h : n.Spells P) : ∃ name, n.readText = .ok name := by
  obtain ⟨name, hname, -⟩ := h n n.mem_nodes_self
  exact ⟨name, hname⟩

/-- An identifier that may be missing has a name with the property, or none. -/
theorem identifierName? (h : ∀ m ∈ o, m.Spells P) :
    ∃ name, Node.identifierName? o = .ok name ∧ ∀ s ∈ name, P s := by
  cases o with
  | none => exact ⟨none, rfl, by simp⟩
  | some m =>
      obtain ⟨name, hname, hP⟩ := h m rfl m m.mem_nodes_self
      by_cases hid : m.kind.isIdentifier = true
      · refine ⟨some name, ?_, by simpa using hP hid⟩
        rw [Node.identifierName?, if_pos hid, hname]
        rfl
      · exact ⟨none, if_neg hid, by simp⟩

theorem literalValue? (h : ∀ m ∈ o, m.Spells P) : ∃ value, Node.literalValue? o = .ok value := by
  cases o with
  | none => exact ⟨none, rfl⟩
  | some m =>
      have hm : m.Spells P := h m rfl
      rw [Node.literalValue?]
      by_cases hnumber : (m.kind == Kind.number) = true
      · obtain ⟨name, hname⟩ := hm.readText
        refine ⟨some name, ?_⟩
        rw [if_pos hnumber, hname]
        rfl
      · by_cases hstring : (m.kind == Kind.string) = true
        · obtain ⟨parts, hparts⟩ := exists_mapM_eq_ok fun c hc =>
            (hm.of_mem (mem_nodes_of_mem_stringFragments hc)).readText
          refine ⟨some (String.join parts), ?_⟩
          rw [if_neg hnumber, if_pos hstring, hparts]
          rfl
        · exact ⟨none, by rw [if_neg hnumber, if_neg hstring]⟩

theorem baseName (h : ∀ m ∈ o, m.Spells P) : ∃ name, Node.baseName o = .ok name := by
  obtain ⟨name, hname, -⟩ := identifierName? h
  by_cases hthis : (o.any fun n => n.kind == Kind.thisExpression) = true
  · refine ⟨"this", ?_⟩
    rw [Node.baseName, if_pos hthis]
    rfl
  · refine ⟨name.getD unknownSegment, ?_⟩
    rw [Node.baseName, if_neg hthis, hname]
    rfl

theorem segmentName (h : n.Spells P) : ∃ name, n.segmentName = .ok name := by
  have hselector : ∀ m ∈ n.selector?, m.Spells P := h.of_child?
  obtain ⟨name, hname, -⟩ := identifierName? hselector
  obtain ⟨value, hvalue⟩ := literalValue? hselector
  cases name with
  | some name =>
      refine ⟨name, ?_⟩
      rw [Node.segmentName, hname]
      rfl
  | none =>
      refine ⟨value.getD unknownSegment, ?_⟩
      rw [Node.segmentName, hname, hvalue]
      rfl

/-- A member path can be read, and has two segments or more: that of the base and that of each
member. -/
theorem memberPath (n : Node) (h : n.Spells P) :
    ∃ path, n.memberPath = .ok path ∧ 2 ≤ path.length := by
  obtain ⟨segment, hsegment⟩ := h.segmentName
  have hobject : ∃ path, objectPath (n.child? "object") = .ok path ∧ 1 ≤ path.length := by
    have hbase : ∃ name, Node.baseName (n.child? "object") = .ok name := baseName h.of_child?
    obtain ⟨name, hname⟩ := hbase
    cases ho : n.child? "object" with
    | none =>
        rw [ho] at hname
        refine ⟨[name], ?_, Nat.le_refl 1⟩
        rw [objectPath, hname]
        rfl
    | some o =>
        rw [ho] at hname
        by_cases hmember : o.kind.isMember = true
        · have hsize : o.size < n.size := size_child?_lt ho
          obtain ⟨path, hpath, hlength⟩ := memberPath o (h.of_child? o ho)
          refine ⟨path, ?_, by omega⟩
          rw [objectPath, if_pos hmember, hpath]
        · refine ⟨[name], ?_, Nat.le_refl 1⟩
          rw [objectPath, if_neg hmember, hname]
          rfl
  obtain ⟨path, hpath, hlength⟩ := hobject
  refine ⟨path ++ [segment], ?_, ?_⟩
  · rw [memberPath_eq_objectPath, hpath, hsegment]
    rfl
  · rw [List.length_append, List.length_singleton]
    omega
termination_by n.size

end Spells

/-! ## Names of scopes -/

section Signature

variable {P : String → Prop} {n : Node} {scope : Scope}

theorem Spells.variableName? (h : ∀ p ∈ scope.parent, p.Spells P) :
    ∃ name, scope.variableName? = .ok name ∧ ∀ s ∈ name, P s := by
  unfold Scope.variableName?
  cases hparent : scope.parent with
  | none => exact ⟨none, rfl, by simp⟩
  | some p =>
      by_cases hkind : (p.kind == Kind.variableDeclarator) = true
      · simp only [hkind, if_true]
        exact identifierName? (h p hparent).of_child?
      · exact ⟨none, if_neg hkind, by simp⟩

variable (hpath : ∀ parts : List String, 2 ≤ parts.length → P (".".intercalate parts))
include hpath

/-- The name of an assignment target has every property that identifiers and joined paths have. -/
theorem Spells.targetName? (h : n.Spells P) :
    ∃ name, Scope.targetName? n = .ok name ∧ ∀ s ∈ name, P s := by
  obtain ⟨name, hname, hP⟩ := identifierName? (o := some n) fun m hm => by
    obtain rfl := Option.some.inj hm
    exact h
  cases name with
  | some name =>
      refine ⟨some name, ?_, hP⟩
      rw [Scope.targetName?, hname]
      rfl
  | none =>
      obtain ⟨path, hmember, hlength⟩ := memberPath n h
      by_cases hkind : n.kind.isMember = true
      · refine ⟨some (".".intercalate path), ?_, ?_⟩
        · rw [Scope.targetName?, hname]
          show (if n.kind.isMember = true then _ else _) = _
          rw [if_pos hkind, hmember]
          rfl
        · intro s hs
          obtain rfl := Option.some.inj hs
          exact hpath path hlength
      · refine ⟨none, ?_, by simp⟩
        rw [Scope.targetName?, hname]
        show (if n.kind.isMember = true then _ else _) = _
        rw [if_neg hkind]
        rfl

theorem Spells.assignedName? (h : ∀ p ∈ scope.parent, p.Spells P) :
    ∃ name, scope.assignedName? = .ok name ∧ ∀ s ∈ name, P s := by
  unfold Scope.assignedName?
  cases hparent : scope.parent with
  | none => exact ⟨none, rfl, by simp⟩
  | some p =>
      by_cases hkind : (p.kind == Kind.assignmentExpression) = true
      · simp only [hkind, if_true]
        cases hleft : p.child? "left" with
        | none => exact ⟨none, rfl, by simp⟩
        | some target => exact targetName? hpath ((h p hparent).of_child? target hleft)
      · exact ⟨none, if_neg hkind, by simp⟩

theorem Spells.functionName? (hnode : scope.node.Spells P) (h : ∀ p ∈ scope.parent, p.Spells P) :
    ∃ name, scope.functionName? = .ok name ∧ ∀ s ∈ name, P s := by
  obtain ⟨own, hown, hownP⟩ : ∃ name, scope.ownName? = .ok name ∧ ∀ s ∈ name, P s :=
    identifierName? hnode.of_child?
  obtain ⟨initialised, hinitialised, hinitialisedP⟩ := variableName? h
  obtain ⟨assigned, hassigned, hassignedP⟩ := assignedName? hpath h
  -- the first of the three that is there is the name
  unfold Scope.functionName?
  rw [hown, hinitialised, hassigned]
  cases own with
  | some name => exact ⟨some name, rfl, hownP⟩
  | none =>
      cases initialised with
      | some name => exact ⟨some name, rfl, hinitialisedP⟩
      | none => exact ⟨assigned, rfl, hassignedP⟩

/-- **The name of a function** can be read, and has every property that identifiers, joined paths
and the name of anonymous functions have. -/
theorem Spells.signature (hanonymous : P Scope.anonymousSignature) (hn : n.Spells P) {v : Spot}
    (hv : v ∈ n.openings) (hfunction : v.node.kind ≠ Kind.program) :
    ∃ name, v.signature [] = .ok name ∧ P name := by
  have hwalked := mem_walked_of_mem_openings hv
  set scope : Scope := v.scope [] 0 [] Amount.zero
  have hnode : scope.node.Spells P := hn.of_mem (node_mem_nodes_of_mem_walked hwalked)
  have hparent : ∀ p ∈ scope.parent, p.Spells P := fun p hp =>
    hn.of_mem ((mem_nodes_of_namingNode? hwalked hp).resolve_right List.not_mem_nil)
  obtain ⟨name, hname, hP⟩ := functionName? hpath hnode hparent
  have hprogram : scope.isProgram = false := beq_false_of_ne hfunction
  refine ⟨name.getD Scope.anonymousSignature, ?_, ?_⟩
  · show scope.signature = _
    rw [Scope.signature, hprogram, hname]
    rfl
  · cases name with
    | none => exact hanonymous
    | some name => exact hP name rfl

end Signature

theorem signature_of_program {v : Spot} (h : v.node.kind = Kind.program) :
    v.signature [] = .ok Scope.programSignature :=
  if_pos (beq_iff_eq.2 h)

/-- In a tree that can be read, all names can be read. -/
theorem Legible.nameable {n : Node} (h : n.Legible) : n.Nameable := by
  intro v hv
  by_cases hprogram : v.node.kind = Kind.program
  · exact ⟨_, signature_of_program hprogram⟩
  · obtain ⟨name, hname, -⟩ := Spells.signature (fun _ _ => trivial) trivial h.spells hv hprogram
    exact ⟨name, hname⟩

/-- A joined path has a point in it, the marker of a program has none. -/
theorem intercalate_ne_marker {parts : List String} (h : 2 ≤ parts.length) :
    ".".intercalate parts ≠ Scope.programSignature := by
  intro heq
  match parts, h with
  | first :: second :: rest, _ =>
      have hpoint : '.' ∈ (".".intercalate (first :: second :: rest)).toList := by
        rw [String.toList_intercalate, List.map_cons, List.map_cons, List.intercalate_cons_cons]
        simp
      rw [heq] at hpoint
      revert hpoint
      decide

/-- **The marker marks programs only.** In a tree that can be read, and in which no identifier reads
as the marker, a scope is called by it exactly if its node is a program. -/
theorem signature_eq_marker_iff {n : Node} (hlegible : n.Legible) (hunmarked : n.Unmarked)
    {v : Spot} (hv : v ∈ n.openings) :
    v.signature [] = .ok Scope.programSignature ↔ v.node.kind = Kind.program := by
  constructor
  · intro hmarker
    by_contra hfunction
    obtain ⟨name, hname, hne⟩ := Spells.signature (fun _ hparts => intercalate_ne_marker hparts)
      (by decide) (hlegible.spells_of_unmarked hunmarked) hv hfunction
    rw [hname] at hmarker
    exact hne (Except.ok.inj hmarker)
  · exact signature_of_program

end Node

end ScopeScore
