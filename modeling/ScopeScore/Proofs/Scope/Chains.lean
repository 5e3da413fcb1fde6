import ScopeScore.Proofs.Scope.Names
import ScopeScore.Proofs.Text.Utf8

set_option autoImplicit false

/-! # Chains of members

In `a.b['c'][0]` each member node has the one before it as its object. The member nodes on the way
to the base are a chain (`Node.ChainOf`), and the path of a member node has one segment for each of
them, behind that of the base. What the segments are is said by `Node.baseText` and
`Node.segmentText`, which look at one node only.

* **`Node.ChainOf.memberPath_eq`**: the path of a member node from its chain.
* `Node.chainOf_chain`, `Node.ChainOf.unique`: every member node has one chain, which is computed by
  `Node.chain`.

The other way round, every base and all parts that may be selected from it can be written as a chain
(`Chain.node?`), and its path has their texts (**`Chain.objectPath_node?`**).
-/

namespace ScopeScore

namespace Node

/-! ## What a chain says -/

/-- The text of a node that can be read. -/
def plainText (n : Node) : String := n.readText.toOption.getD ""

/-- The name of the object at the base of a chain. -/
def baseText : Option Node → String
  | some o =>
      if o.kind.isIdentifier then o.plainText
      else if o.kind = Kind.thisExpression then "this"
      else "?"
  | none => "?"

/-- The texts of the plain fragments of a string. -/
def fragmentTexts (n : Node) : List String :=
  (n.children.filter fun c => c.named && c.kind == Kind.stringFragment).map plainText

/-- The name of the part that a member node selects by this node. -/
def partText : Option Node → String
  | some p =>
      if p.kind.isIdentifier ∨ p.kind = Kind.number then p.plainText
      else if p.kind = Kind.string then String.join p.fragmentTexts
      else "?"
  | none => "?"

/-- The segment of a member node. -/
def segmentText (m : Node) : String :=
  if m.kind = Kind.memberExpression then partText (m.child? "property")
  else partText (m.child? "index")

/-- The member nodes from `m` down to the base, `m` first: each has the next one as its object, and
the object of the last one is no member node or missing. -/
structure ChainOf (m : Node) (ms : List Node) : Prop where
  head : ms.head? = some m
  member : ∀ a ∈ ms, a.kind.isMember = true
  linked : ms.IsChain fun a b => a.child? "object" = some b
  maximal : ∀ a ∈ ms.getLast?, ∀ o ∈ a.child? "object", o.kind.isMember = false

/-- The member nodes from `m` down to the base. -/
def chain (m : Node) : List Node :=
  match _h : m.child? "object" with
  | some o => if o.kind.isMember then m :: o.chain else [m]
  | none => [m]
termination_by m.size
decreasing_by exact size_child?_lt _h

/-- The object at the base of a chain. -/
def baseOf (ms : List Node) : Option Node := ms.getLast?.bind (·.child? "object")

/-! ## Reading single nodes -/

/-- The name of the part that a member node selects by this node. -/
def partName (o : Option Node) : Read String := do
  match ← identifierName? o with
  | some name => return name
  | none => return (← literalValue? o).getD unknownSegment

theorem segmentName_eq_partName (n : Node) : n.segmentName = partName n.selector? := rfl

section Reading

variable {n : Node} {o : Option Node}

theorem identifierName?_of_isIdentifier (hid : n.kind.isIdentifier = true) :
    identifierName? (some n) = some <$> n.readText := if_pos hid

theorem identifierName?_of_not_isIdentifier (hid : ¬ n.kind.isIdentifier = true) :
    identifierName? (some n) = .ok none := if_neg hid

theorem baseName_of_isIdentifier (hid : n.kind.isIdentifier = true) :
    baseName (some n) = n.readText := by
  have hthis : ¬ (n.kind == Kind.thisExpression) = true := by
    intro hthis
    rw [eq_of_beq hthis] at hid
    exact absurd hid (by decide)
  rw [baseName, Option.any_some, if_neg hthis, identifierName?_of_isIdentifier hid]
  cases n.readText <;> rfl

theorem baseName_of_this (hthis : n.kind = Kind.thisExpression) :
    baseName (some n) = .ok "this" := by
  rw [baseName, Option.any_some, if_pos (beq_iff_eq.2 hthis)]
  rfl

theorem baseName_of_mute (hid : ¬ n.kind.isIdentifier = true)
    (hthis : n.kind ≠ Kind.thisExpression) : baseName (some n) = .ok "?" := by
  rw [baseName, Option.any_some, if_neg (fun e => hthis (eq_of_beq e)),
    identifierName?_of_not_isIdentifier hid]
  rfl

theorem partName_of_isIdentifier (hid : n.kind.isIdentifier = true) :
    partName (some n) = n.readText := by
  rw [partName, identifierName?_of_isIdentifier hid]
  cases n.readText <;> rfl

theorem partName_of_number (hnumber : n.kind = Kind.number) :
    partName (some n) = n.readText := by
  have hid : ¬ n.kind.isIdentifier = true := by
    rw [hnumber]
    decide
  rw [partName, identifierName?_of_not_isIdentifier hid, literalValue?,
    if_pos (beq_iff_eq.2 hnumber)]
  cases n.readText <;> rfl

theorem partName_of_string (hstring : n.kind = Kind.string) :
    partName (some n) = String.join <$> n.stringFragments.mapM readText := by
  have hid : ¬ n.kind.isIdentifier = true := by
    rw [hstring]
    decide
  have hnumber : ¬ (n.kind == Kind.number) = true := by
    rw [hstring]
    decide
  rw [partName, identifierName?_of_not_isIdentifier hid, literalValue?, if_neg hnumber,
    if_pos (beq_iff_eq.2 hstring)]
  cases n.stringFragments.mapM readText <;> rfl

theorem partName_of_mute (hid : ¬ n.kind.isIdentifier = true) (hnumber : n.kind ≠ Kind.number)
    (hstring : n.kind ≠ Kind.string) : partName (some n) = .ok "?" := by
  rw [partName, identifierName?_of_not_isIdentifier hid, literalValue?,
    if_neg (fun e => hnumber (eq_of_beq e)), if_neg (fun e => hstring (eq_of_beq e))]
  rfl

/-! ### In a tree that can be read -/

theorem Legible.of_mem (h : n.Legible) {m : Node} (hm : m ∈ n.nodes) : m.Legible := fun c hc =>
  h c (mem_nodes_trans hc n hm)

theorem Legible.of_child? (h : n.Legible) {f : String} : ∀ m ∈ n.child? f, m.Legible := fun _ hm =>
  h.of_mem (mem_nodes_of_child? hm)

theorem readText_eq_plainText (h : ∃ name, n.readText = .ok name) :
    n.readText = .ok n.plainText := by
  obtain ⟨name, hname⟩ := h
  rw [plainText, hname]
  rfl

theorem Legible.readText_eq (h : n.Legible) : n.readText = .ok n.plainText :=
  readText_eq_plainText (h n n.mem_nodes_self)

theorem fragmentTexts_eq (n : Node) : n.fragmentTexts = n.stringFragments.map plainText := by
  rw [fragmentTexts, stringFragments, namedChildren, List.filter_filter]
  congr 1
  exact List.filter_congr fun c _ => Bool.and_comm ..

theorem mapM_readText_eq (hread : ∀ c ∈ n.stringFragments, c.readText = .ok c.plainText) :
    n.stringFragments.mapM readText = .ok n.fragmentTexts := by
  have hall := mapM_map_eq_ok (k := fun c => c) hread
  rwa [List.map_id', ← fragmentTexts_eq] at hall

theorem Legible.mapM_readText_eq (h : n.Legible) :
    n.stringFragments.mapM readText = .ok n.fragmentTexts :=
  Node.mapM_readText_eq fun _ hc => (h.of_mem (mem_nodes_of_mem_stringFragments hc)).readText_eq

/-- The base of a chain is read as it should be. -/
theorem baseName_eq (h : ∀ m ∈ o, m.Legible) : baseName o = .ok (baseText o) := by
  cases o with
  | none => rfl
  | some m =>
      rw [baseText]
      split
      · next hid => rw [baseName_of_isIdentifier hid, (h m rfl).readText_eq]
      split
      · next hthis => exact baseName_of_this hthis
      · next hid hthis => exact baseName_of_mute hid hthis

/-- The part that is selected is read as it should be. -/
theorem partName_eq (h : ∀ m ∈ o, m.Legible) : partName o = .ok (partText o) := by
  cases o with
  | none => rfl
  | some m =>
      have hm : m.Legible := h m rfl
      rw [partText]
      split
      · next hname =>
          rcases hname with hid | hnumber
          · rw [partName_of_isIdentifier hid, hm.readText_eq]
          · rw [partName_of_number hnumber, hm.readText_eq]
      split
      · next hstring =>
          rw [partName_of_string hstring, hm.mapM_readText_eq]
          rfl
      · next hname hstring =>
          exact partName_of_mute (fun hid => hname (Or.inl hid))
            (fun hnumber => hname (Or.inr hnumber)) hstring

theorem segmentName_eq (h : n.Legible) : n.segmentName = .ok n.segmentText := by
  have hselector : partText n.selector? = n.segmentText := by
    rw [selector?, segmentText]
    by_cases hkind : n.kind = Kind.memberExpression
    · rw [if_pos (beq_iff_eq.2 hkind), if_pos hkind]
    · rw [if_neg (fun e => hkind (eq_of_beq e)), if_neg hkind]
  rw [segmentName_eq_partName, ← hselector]
  exact partName_eq h.of_child?

end Reading

/-! ## Paths of chains -/

section Paths

variable {m : Node} {ms : List Node}

theorem ChainOf.tail {b : Node} (h : ChainOf m (m :: b :: ms)) : ChainOf b (b :: ms) where
  head := rfl
  member a ha := h.member a (List.mem_cons_of_mem m ha)
  linked := (List.isChain_cons_cons.1 h.linked).2
  maximal a ha := h.maximal a (by rwa [List.getLast?_cons_cons])

/-- **The path of a member node from its chain**: the base first, then one segment for each member
node, the innermost first. -/
theorem ChainOf.memberPath_eq (h : ChainOf m ms) (hm : m.Legible) :
    m.memberPath = .ok (baseText (baseOf ms) :: (ms.map segmentText).reverse) := by
  induction ms generalizing m with
  | nil => cases h.head
  | cons a ms ih =>
      obtain rfl : a = m := Option.some.inj h.head
      rw [memberPath_eq_objectPath, segmentName_eq hm]
      cases ms with
      | nil =>
          -- the object is no member node, so it is the base
          have hobject : objectPath (a.child? "object") = .ok [baseText (a.child? "object")] := by
            have hbase := baseName_eq (o := a.child? "object") hm.of_child?
            cases ho : a.child? "object" with
            | none =>
                rw [objectPath, ← ho, hbase]
                rfl
            | some o =>
                rw [ho] at hbase
                rw [objectPath, h.maximal a rfl o ho, if_neg Bool.false_ne_true, hbase]
                rfl
          rw [hobject]
          rfl
      | cons b ms =>
          have hlink : a.child? "object" = some b := (List.isChain_cons_cons.1 h.linked).1
          have hb : b.kind.isMember = true := h.member b (by simp)
          have hbase : baseOf (a :: b :: ms) = baseOf (b :: ms) := by
            rw [baseOf, List.getLast?_cons_cons, baseOf]
          have hsegments : ((a :: b :: ms).map segmentText).reverse =
              ((b :: ms).map segmentText).reverse ++ [a.segmentText] := by
            rw [List.map_cons, List.reverse_cons]
          rw [hlink, objectPath, if_pos hb, ih h.tail (hm.of_child? b hlink), hbase, hsegments]
          rfl

theorem chainOf_singleton (hm : m.kind.isMember = true)
    (hobject : ∀ o ∈ m.child? "object", o.kind.isMember = false) : ChainOf m [m] where
  head := rfl
  member := by simpa using hm
  linked := List.isChain_singleton m
  maximal a ha := by
    obtain rfl : m = a := Option.some.inj ha
    exact hobject

/-- The chain of the object, with `m` in front of it. -/
theorem ChainOf.cons {o : Node} (h : ChainOf o ms) (hm : m.kind.isMember = true)
    (hobject : m.child? "object" = some o) : ChainOf m (m :: ms) := by
  obtain ⟨rest, rfl⟩ := List.head?_eq_some_iff.1 h.head
  refine ⟨rfl, ?_, ?_, ?_⟩
  · intro a ha
    rcases List.mem_cons.1 ha with rfl | ha
    · exact hm
    · exact h.member a ha
  · exact List.isChain_cons_cons.2 ⟨hobject, h.linked⟩
  · rw [List.getLast?_cons_cons]
    exact h.maximal

/-- A member node has a chain. -/
theorem chainOf_chain (m : Node) (hm : m.kind.isMember = true) : ChainOf m m.chain := by
  rw [chain]
  split
  · next o ho =>
      split
      · next hmember =>
          have hsize : o.size < m.size := size_child?_lt ho
          exact (chainOf_chain o hmember).cons hm ho
      · next hmember =>
          apply chainOf_singleton hm
          intro p hp
          rw [ho] at hp
          obtain rfl := Option.some.inj hp
          exact Bool.eq_false_iff.2 hmember
  · next ho =>
      apply chainOf_singleton hm
      intro p hp
      rw [ho] at hp
      cases hp
termination_by m.size

/-- A member node has no other chain. -/
theorem ChainOf.unique (h : ChainOf m ms) {ms' : List Node} (h' : ChainOf m ms') : ms' = ms := by
  induction ms generalizing m ms' with
  | nil => cases h.head
  | cons a ms ih =>
      obtain rfl : a = m := Option.some.inj h.head
      obtain ⟨rest', rfl⟩ := List.head?_eq_some_iff.1 h'.head
      cases ms with
      | nil =>
          cases rest' with
          | nil => rfl
          | cons b' rest' =>
              -- the one chain ends here, the other goes on
              have hlink := (List.isChain_cons_cons.1 h'.linked).1
              have hb' : b'.kind.isMember = true := h'.member b' (by simp)
              rw [h.maximal a rfl b' hlink] at hb'
              cases hb'
      | cons b ms =>
          have hlink := (List.isChain_cons_cons.1 h.linked).1
          cases rest' with
          | nil =>
              have hb : b.kind.isMember = true := h.member b (by simp)
              rw [h'.maximal a rfl b hlink] at hb
              cases hb
          | cons b' rest' =>
              have hlink' := (List.isChain_cons_cons.1 h'.linked).1
              obtain rfl : b = b' := Option.some.inj (hlink.symm.trans hlink')
              rw [ih h.tail h'.tail]

end Paths

end Node

/-! ## Chains as trees -/

namespace Chain

/-- How a part of an object is selected: behind a point or in brackets. -/
inductive Access where
  | dot
  | bracket
deriving DecidableEq, Repr

/-- The kind of a member node that selects so. -/
def Access.kind : Access → Kind
  | .dot => Kind.memberExpression
  | .bracket => Kind.subscriptExpression

/-- The field under which it holds what it selects. -/
def Access.field : Access → String
  | .dot => "property"
  | .bracket => "index"

/-- What may stand at the base of a chain. -/
inductive Base where
  | identifier (kind : Kind) (name : String) (isIdentifier : kind.isIdentifier = true)
  | this
  | other (kind : Kind) (text : Option (List UInt8)) (children : List Node)
      (mute : kind.isIdentifier = false ∧ kind ≠ Kind.thisExpression ∧ kind.isMember = false)
  | absent

/-- What may be selected. A string is given by its fragments. -/
inductive Part where
  | identifier (kind : Kind) (name : String) (isIdentifier : kind.isIdentifier = true)
  | number (digits : String)
  | string (fragments : List String)
  | other (kind : Kind) (text : Option (List UInt8)) (children : List Node)
      (mute : kind.isIdentifier = false ∧ kind ≠ Kind.number ∧ kind ≠ Kind.string)
  | absent

/-- One member of a chain. -/
structure Link where
  access : Access
  part : Part

def Base.text : Base → String
  | .identifier _ name _ => name
  | .this => "this"
  | .other .. => "?"
  | .absent => "?"

def Part.text : Part → String
  | .identifier _ name _ => name
  | .number digits => digits
  | .string fragments => String.join fragments
  | .other .. => "?"
  | .absent => "?"

def Link.text (l : Link) : String := l.part.text

/-- Is a name at the base? -/
def Base.IsName (b : Base) : Prop := ∃ kind name h, b = .identifier kind name h

/-- A named node that its parent holds under a field. -/
def held (field : Option String) (kind : Kind) (text : Option (List UInt8)) (children : List Node) :
    Node :=
  .node { id := 0, kind, named := true, field, row := 0, text } children

/-- The node at the base, if there is one. -/
def Base.node? (field : String) : Base → Option Node
  | .identifier kind name _ => some (held field kind (some (Utf8.encode name)) [])
  | .this => some (held field Kind.thisExpression (some (Utf8.encode "this")) [])
  | .other kind text children _ => some (held field kind text children)
  | .absent => none

/-- A fragment of a string. -/
def fragment (text : String) : Node :=
  held none Kind.stringFragment (some (Utf8.encode text)) []

/-- The node that says what is selected, if there is one. -/
def Part.node? (field : String) : Part → Option Node
  | .identifier kind name _ => some (held field kind (some (Utf8.encode name)) [])
  | .number digits => some (held field Kind.number (some (Utf8.encode digits)) [])
  | .string fragments => some (held field Kind.string none (fragments.map fragment))
  | .other kind text children _ => some (held field kind text children)
  | .absent => none

/-- The member node that selects a part of `object`. -/
def Link.node (field : String) (object : Option Node) (l : Link) : Node :=
  held field l.access.kind none
    (object.toList ++ (l.part.node? l.access.field).toList)

/-- The chain with these links, the last one given first. -/
def nodeFrom? (field : String) (base : Base) : List Link → Option Node
  | [] => base.node? field
  | l :: before => some (l.node field (nodeFrom? "object" base before))

/-- The chain of a base and some links, in the order in which they are read. -/
def node? (field : String) (base : Base) (links : List Link) : Option Node :=
  nodeFrom? field base links.reverse

/-! ### What its nodes are read as -/

theorem readText_held (field : Option String) (kind : Kind) (name : String) (cs : List Node) :
    (held field kind (some (Utf8.encode name)) cs).readText = .ok name :=
  Utf8.decode_encode name

theorem readText_fragment (text : String) : (fragment text).readText = .ok text :=
  readText_held ..

theorem baseName_node? (f : String) (b : Base) : Node.baseName (b.node? f) = .ok b.text := by
  cases b with
  | identifier kind name hid =>
      have hread := Node.baseName_of_isIdentifier
        (n := held f kind (some (Utf8.encode name)) []) hid
      rw [readText_held] at hread
      exact hread
  | this => exact Node.baseName_of_this rfl
  | other kind text children mute =>
      exact Node.baseName_of_mute (Bool.eq_false_iff.1 mute.1) mute.2.1
  | absent => rfl

theorem stringFragments_held (field : Option String) (fragments : List String) :
    (held field Kind.string none (fragments.map fragment)).stringFragments =
      fragments.map fragment := by
  show ((fragments.map fragment).filter Node.named).filter _ = _
  rw [List.filter_filter]
  refine List.filter_eq_self.2 fun c hc => ?_
  obtain ⟨text, -, rfl⟩ := List.mem_map.1 hc
  rfl

theorem partName_node? (f : String) (p : Part) : Node.partName (p.node? f) = .ok p.text := by
  cases p with
  | identifier kind name hid =>
      have hread := Node.partName_of_isIdentifier
        (n := held f kind (some (Utf8.encode name)) []) hid
      rw [readText_held] at hread
      exact hread
  | number digits =>
      rw [Part.node?, Node.partName_of_number rfl, readText_held]
      rfl
  | string fragments =>
      have hfragments : (fragments.map fragment).mapM Node.readText = .ok fragments := by
        rw [mapM_map_eq_ok (g := fun text => text) fun text _ => readText_fragment text,
          List.map_id']
      rw [Part.node?, Node.partName_of_string rfl, stringFragments_held, hfragments]
      rfl
  | other kind text children mute =>
      exact Node.partName_of_mute (Bool.eq_false_iff.1 mute.1) mute.2.1 mute.2.2
  | absent => rfl

/-! ### What a member node holds -/

theorem field_of_mem_nodeFrom? {f : String} {b : Base} {links : List Link} {n : Node}
    (h : n ∈ nodeFrom? f b links) : n.label.field = some f := by
  cases links with
  | nil =>
      cases b <;> cases h <;> rfl
  | cons l before =>
      cases h
      rfl

theorem field_of_mem_partNode? {f : String} {p : Part} {n : Node} (h : n ∈ p.node? f) :
    n.label.field = some f := by
  cases p <;> cases h <;> rfl

theorem isUnder_of_field {n : Node} {f : String} (h : n.label.field = some f) (g : String) :
    n.isUnder g = (f == g) := by
  rw [Node.isUnder, h]
  rfl

theorem find?_toList_of_all {q : Node → Bool} {o : Option Node} (h : ∀ n ∈ o, q n = true) :
    o.toList.find? q = o := by
  cases o with
  | none => rfl
  | some n => exact List.find?_cons_of_pos (h n rfl)

theorem find?_toList_of_none {q : Node → Bool} {o : Option Node} (h : ∀ n ∈ o, q n = false) :
    o.toList.find? q = none := by
  cases o with
  | none => rfl
  | some n => exact List.find?_cons_of_neg (by rw [h n rfl]; exact Bool.false_ne_true)

section Holding

variable (f : String) (l : Link) {object : Option Node}
  (hobject : ∀ o ∈ object, o.label.field = some "object")
include hobject

/-- The object is found, since the part is in another field. -/
theorem child?_object_node : (l.node f object).child? "object" = object := by
  have hfound : ∀ o ∈ object, o.isUnder "object" = true := fun o ho =>
    isUnder_of_field (hobject o ho) "object"
  have hpassed : ∀ p ∈ l.part.node? l.access.field, p.isUnder "object" = false := by
    intro p hp
    rw [isUnder_of_field (field_of_mem_partNode? hp)]
    cases l.access <;> rfl
  show (object.toList ++ (l.part.node? l.access.field).toList).find? (Node.isUnder "object") = _
  rw [List.find?_append, find?_toList_of_all hfound, find?_toList_of_none hpassed, Option.or_none]

/-- The part is found in the field that the kind of the member node asks for. -/
theorem selector?_node : (l.node f object).selector? = l.part.node? l.access.field := by
  have hfield : (l.node f object).selector? = (l.node f object).child? l.access.field := by
    unfold Node.selector?
    show (l.node f object).child? (if l.access.kind == Kind.memberExpression then _ else _) = _
    cases l.access <;> rfl
  have hpassed : ∀ o ∈ object, o.isUnder l.access.field = false := by
    intro o ho
    rw [isUnder_of_field (hobject o ho)]
    cases l.access <;> rfl
  have hfound : ∀ p ∈ l.part.node? l.access.field, p.isUnder l.access.field = true := by
    intro p hp
    rw [isUnder_of_field (field_of_mem_partNode? hp)]
    exact beq_self_eq_true _
  rw [hfield]
  show (object.toList ++ (l.part.node? l.access.field).toList).find?
    (Node.isUnder l.access.field) = _
  rw [List.find?_append, find?_toList_of_none hpassed, find?_toList_of_all hfound, Option.none_or]

end Holding

/-! ### Its path -/

theorem isMember_node (f : String) (l : Link) (object : Option Node) :
    (l.node f object).kind.isMember = true := by
  show l.access.kind.isMember = true
  cases l.access <;> rfl

theorem isMember_of_mem_baseNode? {f : String} {b : Base} {n : Node} (h : n ∈ b.node? f) :
    n.kind.isMember = false := by
  cases b with
  | identifier kind name hid =>
      obtain rfl := Option.some.inj h
      have hall : ∀ k ∈ Kind.identifiers, Kind.isMember k = false := by decide
      exact hall kind (List.contains_iff_mem.1 hid)
  | this =>
      obtain rfl := Option.some.inj h
      rfl
  | other kind text children mute =>
      obtain rfl := Option.some.inj h
      exact mute.2.2
  | absent => cases h

/-- The path of a chain, from its last link inwards. -/
theorem objectPath_nodeFrom? (f : String) (b : Base) (links : List Link) :
    Node.objectPath (nodeFrom? f b links) = .ok (b.text :: (links.map Link.text).reverse) := by
  induction links generalizing f with
  | nil =>
      -- nothing is selected, and the base is no member node
      have hbase := baseName_node? f b
      show Node.objectPath (b.node? f) = .ok [b.text]
      cases hnode : b.node? f with
      | none =>
          rw [hnode] at hbase
          rw [Node.objectPath, hbase]
          rfl
      | some n =>
          rw [hnode] at hbase
          rw [Node.objectPath, isMember_of_mem_baseNode? hnode, if_neg Bool.false_ne_true, hbase]
          rfl
  | cons l before ih =>
      have hobject : ∀ o ∈ nodeFrom? "object" b before, o.label.field = some "object" :=
        fun o ho => field_of_mem_nodeFrom? ho
      rw [nodeFrom?, Node.objectPath, if_pos (isMember_node ..), Node.memberPath_eq_objectPath,
        child?_object_node f l hobject, ih, Node.segmentName_eq_partName,
        selector?_node f l hobject, partName_node?, List.map_cons, List.reverse_cons]
      rfl

/-- **The path of a chain has the texts of its base and of its links.** -/
theorem objectPath_node? (f : String) (b : Base) (links : List Link) :
    Node.objectPath (node? f b links) = .ok (b.text :: links.map Link.text) := by
  rw [node?, objectPath_nodeFrom?, List.map_reverse, List.reverse_reverse]

/-! ### Chains that are assigned to -/

/-- A chain is a target with a name, and so is a base alone if it is a name. -/
theorem exists_targetName?_eq (f : String) {b : Base} {links : List Link}
    (h : links = [] → b.IsName) :
    ∃ target, node? f b links = some target ∧
      Scope.targetName? target = .ok (some (".".intercalate (b.text :: links.map Link.text))) := by
  have hpath := objectPath_node? f b links
  unfold node? at hpath ⊢
  -- the target is the node of the last link
  cases hlinks : links.reverse with
  | nil =>
      obtain rfl := List.reverse_eq_nil_iff.1 hlinks
      obtain ⟨kind, name, hid, rfl⟩ := h rfl
      have hname := Node.identifierName?_of_isIdentifier
        (n := held f kind (some (Utf8.encode name)) []) hid
      refine ⟨_, rfl, ?_⟩
      rw [Scope.targetName?, hname, readText_held]
      rfl
  | cons l before =>
      rw [hlinks, nodeFrom?, Node.objectPath, if_pos (isMember_node ..)] at hpath
      have hid : ¬ (l.node f (nodeFrom? "object" b before)).kind.isIdentifier = true := by
        show ¬ l.access.kind.isIdentifier = true
        cases l.access <;> decide
      refine ⟨_, rfl, ?_⟩
      rw [Scope.targetName?, Node.identifierName?_of_not_isIdentifier hid]
      show (if _ then _ else _) = _
      rw [if_pos (isMember_node ..), hpath]
      rfl

end Chain

end ScopeScore
