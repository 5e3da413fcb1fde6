import ScopeScore.Proofs.Scope.Chains

set_option autoImplicit false

/-! # What names are read from

Which texts are read to name a scope is settled before any of them is read: it depends on kinds and
fields alone. A `Clue` is what the name is read from, and `Scope.clue` finds it.

* **`Scope.signature_eq_read`**: the signature of a scope is what its clue reads as.
* `Clue.texts`: the nodes whose texts are read for it, in order. For a path of members they are the
  base and then what is selected, from the innermost member to the outermost (`Node.pathTexts`).
* **`Scope.asks_signature`**: a signature fails exactly if one of these texts cannot be read, with the
  fault of the first of them (`Node.FirstUnreadable`).
-/

namespace ScopeScore

namespace Node

/-! ## Nodes that cannot be read -/

/-- Is the text of a node there, but not the octets of any text in UTF-8? -/
def IsUndecodable (c : Node) : Prop :=
  ∃ octets, c.text = some octets ∧ ∀ name, octets ≠ Utf8.encode name

theorem readText_of_text_eq_none {c : Node} (h : c.text = none) : c.readText = .ok "" := by
  rw [readText, h]

/-- A node cannot be read exactly if its text is no UTF-8. -/
theorem exists_readText_eq_error_iff {c : Node} :
    (∃ fault, c.readText = .error fault) ↔ c.IsUndecodable := by
  cases htext : c.text with
  | none =>
      rw [readText_of_text_eq_none htext, IsUndecodable, htext]
      constructor
      · rintro ⟨fault, h⟩
        cases h
      · rintro ⟨octets, h, -⟩
        cases h
  | some octets =>
      have hread : c.readText = Utf8.decode octets := by rw [readText, htext]
      rw [hread, IsUndecodable, htext]
      constructor
      · rintro ⟨fault, hfault⟩
        refine ⟨octets, rfl, fun name hname => ?_⟩
        rw [Utf8.decode_eq_ok_iff.2 hname] at hfault
        cases hfault
      · rintro ⟨octets', hoctets, hnone⟩
        obtain rfl := Option.some.inj hoctets
        cases hdecode : Utf8.decode octets with
        | error fault => exact ⟨fault, rfl⟩
        | ok name => exact absurd (Utf8.decode_eq_ok_iff.1 hdecode) (hnone name)

/-- The first of some nodes that cannot be read has this fault. -/
def FirstUnreadable (cs : List Node) (fault : Utf8.Invalid) : Prop :=
  ∃ before c after, cs = before ++ c :: after ∧
    (∀ b ∈ before, ∃ name, b.readText = .ok name) ∧ c.readText = .error fault

/-- Reads some nodes, one after the other, for nothing but their faults. -/
def readAll : List Node → Read Unit
  | [] => .ok ()
  | c :: cs => do
      let _ ← c.readText
      readAll cs

theorem readAll_eq_error_iff {cs : List Node} {fault : Utf8.Invalid} :
    readAll cs = .error fault ↔ FirstUnreadable cs fault := by
  induction cs with
  | nil =>
      constructor
      · intro h
        cases h
      · rintro ⟨before, c, after, h, -⟩
        simp at h
  | cons c cs ih =>
      cases hc : c.readText with
      | error e =>
          have hall : readAll (c :: cs) = .error e := by
            rw [readAll, hc]
            rfl
          rw [hall]
          constructor
          · rintro ⟨⟩
            exact ⟨[], c, cs, rfl, by simp, hc⟩
          · rintro ⟨before, d, after, hsplit, hbefore, hd⟩
            -- `c` cannot be read, so nothing is before it
            cases before with
            | nil =>
                obtain ⟨rfl, -⟩ := List.cons.inj hsplit
                rw [hc] at hd
                rw [Except.error.inj hd]
            | cons b before =>
                obtain ⟨rfl, -⟩ := List.cons.inj hsplit
                obtain ⟨name, hname⟩ := hbefore c List.mem_cons_self
                rw [hc] at hname
                cases hname
      | ok name =>
          have hall : readAll (c :: cs) = readAll cs := by
            rw [readAll, hc]
            rfl
          rw [hall, ih]
          constructor
          · rintro ⟨before, d, after, rfl, hbefore, hd⟩
            refine ⟨c :: before, d, after, rfl, ?_, hd⟩
            simpa [hc] using hbefore
          · rintro ⟨before, d, after, hsplit, hbefore, hd⟩
            cases before with
            | nil =>
                obtain ⟨rfl, -⟩ := List.cons.inj hsplit
                rw [hc] at hd
                cases hd
            | cons b before =>
                obtain ⟨rfl, rfl⟩ := List.cons.inj hsplit
                exact ⟨before, d, after, rfl, fun b hb => hbefore b (List.mem_cons_of_mem c hb), hd⟩

/-- There is a first node that cannot be read exactly if there is one at all. -/
theorem exists_firstUnreadable_iff {cs : List Node} :
    (∃ fault, FirstUnreadable cs fault) ↔ ∃ c ∈ cs, c.IsUndecodable := by
  simp only [← readAll_eq_error_iff, ← exists_readText_eq_error_iff]
  induction cs with
  | nil => simp [readAll]
  | cons c cs ih =>
      rw [readAll]
      cases hc : c.readText with
      | error fault => simp [hc, bind, Except.bind]
      | ok name =>
          have hnext : ∀ fault, (do let _ ← (.ok name : Read String); readAll cs) = .error fault ↔
              readAll cs = .error fault := fun fault => Iff.rfl
          simp only [hnext, ih, List.exists_mem_cons_iff, hc, reduceCtorEq, exists_false, false_or]

theorem readAll_append (cs ds : List Node) :
    readAll (cs ++ ds) = (do let _ ← readAll cs; readAll ds) := by
  induction cs with
  | nil => rfl
  | cons c cs ih =>
      rw [List.cons_append, readAll, readAll, ih]
      cases c.readText <;> rfl

/-! ## What a reading asks for

A reading asks for some texts if it fails where reading these fails, and with the same fault. Readings
that are done one after the other ask for what each of them asks for. -/

/-- The reading fails exactly if one of the nodes cannot be read, with the fault of the first. -/
def Read.Asks {α : Type} (x : Read α) (cs : List Node) : Prop :=
  x.map (fun _ => ()) = readAll cs

namespace Read

variable {α β : Type} {x : Read α} {cs ds : List Node}

theorem Asks.error_iff (h : x.Asks cs) (fault : Utf8.Invalid) :
    x = .error fault ↔ FirstUnreadable cs fault := by
  rw [← readAll_eq_error_iff, ← h]
  cases x <;> simp [Except.map]

theorem asks_ok (a : α) : Read.Asks (.ok a) [] := rfl

theorem asks_readText (c : Node) : Read.Asks c.readText [c] := by
  unfold Asks readAll readAll
  cases c.readText <;> rfl

theorem Asks.bind {f : α → Read β} (hx : x.Asks cs) (hf : ∀ a, x = .ok a → (f a).Asks ds) :
    Asks (x >>= f) (cs ++ ds) := by
  unfold Asks at hx ⊢
  rw [readAll_append, ← hx]
  cases hread : x with
  | error e => rfl
  | ok a => exact hf a hread

theorem Asks.map (f : α → β) (hx : x.Asks cs) : Asks (f <$> x) cs := by
  unfold Asks at hx ⊢
  rw [← hx]
  cases x <;> rfl

theorem asks_mapM_readText (cs : List Node) : Read.Asks (cs.mapM Node.readText) cs := by
  induction cs with
  | nil => rfl
  | cons c cs ih =>
      rw [List.mapM_cons]
      exact (asks_readText c).bind fun name _ => (ih.map (name :: ·))

end Read

/-! ## Texts of a path -/

/-- The node, if it is an identifier. -/
def identifier? (o : Option Node) : Option Node := o.filter fun n => n.kind.isIdentifier

/-- The nodes read for the part that a member node selects by this node. -/
def partTexts : Option Node → List Node
  | some p =>
      if p.kind.isIdentifier ∨ p.kind = Kind.number then [p]
      else if p.kind = Kind.string then p.stringFragments
      else []
  | none => []

/-- The nodes read for the segment of a member node. -/
def segmentTexts (m : Node) : List Node :=
  if m.kind = Kind.memberExpression then partTexts (m.child? "property")
  else partTexts (m.child? "index")

/-- The nodes read for the path of a member node: the base, then what is selected, the innermost
first. -/
def pathTexts (m : Node) : List Node :=
  (identifier? (baseOf m.chain)).toList ++ m.chain.reverse.flatMap segmentTexts

/-! ## What names ask for -/

theorem identifier?_of_isIdentifier {n : Node} (h : n.kind.isIdentifier = true) :
    identifier? (some n) = some n := if_pos h

theorem identifier?_of_not_isIdentifier {n : Node} (h : ¬ n.kind.isIdentifier = true) :
    identifier? (some n) = none := if_neg h

theorem identifierName?_of_identifier {o : Option Node} {c : Node} (h : identifier? o = some c) :
    identifierName? o = some <$> c.readText := by
  obtain ⟨rfl, hid⟩ := Option.filter_eq_some_iff.1 h
  exact identifierName?_of_isIdentifier hid

theorem identifierName?_of_no_identifier {o : Option Node} (h : identifier? o = none) :
    identifierName? o = .ok none := by
  cases o with
  | none => rfl
  | some n =>
      have hid : ¬ n.kind.isIdentifier = true := Option.filter_eq_none_iff.1 h n rfl
      exact identifierName?_of_not_isIdentifier hid

theorem asks_baseName (o : Option Node) : (baseName o).Asks (identifier? o).toList := by
  cases o with
  | none => exact Read.asks_ok "?"
  | some n =>
      by_cases hid : n.kind.isIdentifier = true
      · rw [baseName_of_isIdentifier hid, identifier?_of_isIdentifier hid]
        exact Read.asks_readText n
      · rw [identifier?_of_not_isIdentifier hid]
        by_cases hthis : n.kind = Kind.thisExpression
        · rw [baseName_of_this hthis]
          exact Read.asks_ok "this"
        · rw [baseName_of_mute hid hthis]
          exact Read.asks_ok "?"

theorem asks_partName (o : Option Node) : (partName o).Asks (partTexts o) := by
  cases o with
  | none => exact Read.asks_ok "?"
  | some p =>
      simp only [partTexts]
      split
      · next hname =>
          rcases hname with hid | hnumber
          · rw [partName_of_isIdentifier hid]
            exact Read.asks_readText p
          · rw [partName_of_number hnumber]
            exact Read.asks_readText p
      split
      · next hstring =>
          rw [partName_of_string hstring]
          exact (Read.asks_mapM_readText p.stringFragments).map String.join
      · next hname hstring =>
          rw [partName_of_mute (fun hid => hname (Or.inl hid))
            (fun hnumber => hname (Or.inr hnumber)) hstring]
          exact Read.asks_ok "?"

theorem asks_segmentName (m : Node) : m.segmentName.Asks m.segmentTexts := by
  have htexts : m.segmentTexts = partTexts m.selector? := by
    rw [segmentTexts, selector?]
    by_cases hkind : m.kind = Kind.memberExpression
    · rw [if_pos hkind, if_pos (beq_iff_eq.2 hkind)]
    · rw [if_neg hkind, if_neg (fun e => hkind (eq_of_beq e))]
  rw [htexts, segmentName_eq_partName]
  exact asks_partName m.selector?

/-! ### A path, link by link -/

theorem chain_of_member {m o : Node} (ho : m.child? "object" = some o)
    (hmember : o.kind.isMember = true) : m.chain = m :: o.chain := by
  rw [chain]
  split
  · next o' ho' =>
      obtain rfl : o = o' := Option.some.inj (ho.symm.trans ho')
      rw [if_pos hmember]
  · next ho' =>
      rw [ho] at ho'
      cases ho'

theorem chain_of_base {m : Node} (h : ∀ o ∈ m.child? "object", o.kind.isMember = false) :
    m.chain = [m] := by
  rw [chain]
  split
  · next o ho => rw [h o ho, if_neg Bool.false_ne_true]
  · rfl

/-- The texts of the path of the object come before those of the part selected. -/
theorem pathTexts_of_member {m o : Node} (ho : m.child? "object" = some o)
    (hmember : o.kind.isMember = true) : m.pathTexts = o.pathTexts ++ m.segmentTexts := by
  have hbase : baseOf m.chain = baseOf o.chain := by
    obtain ⟨rest, hrest⟩ := List.head?_eq_some_iff.1 (o.chainOf_chain hmember).head
    rw [chain_of_member ho hmember, hrest, baseOf, List.getLast?_cons_cons, baseOf]
  unfold pathTexts
  rw [hbase, chain_of_member ho hmember, List.reverse_cons, List.flatMap_append,
    List.flatMap_singleton, List.append_assoc]

theorem pathTexts_of_base {m : Node} (h : ∀ o ∈ m.child? "object", o.kind.isMember = false) :
    m.pathTexts = (identifier? (m.child? "object")).toList ++ m.segmentTexts := by
  unfold pathTexts
  rw [chain_of_base h, List.reverse_singleton, List.flatMap_singleton]
  rfl

/-- An object is a member node, and the path goes on, or it is the base. -/
theorem member_or_base (o : Option Node) :
    (∃ m, o = some m ∧ m.kind.isMember = true) ∨ ∀ n ∈ o, n.kind.isMember = false := by
  cases o with
  | none => exact Or.inr (by simp)
  | some m =>
      by_cases hmember : m.kind.isMember = true
      · exact Or.inl ⟨m, rfl, hmember⟩
      · exact Or.inr (by simpa using hmember)

theorem objectPath_of_base {o : Option Node} (h : ∀ n ∈ o, n.kind.isMember = false) :
    objectPath o = List.singleton <$> baseName o := by
  cases o with
  | none => rfl
  | some n => rw [objectPath, h n rfl, if_neg Bool.false_ne_true]

/-- **A path asks for its texts**: the base first, then one member after the other. -/
theorem asks_memberPath (m : Node) : m.memberPath.Asks m.pathTexts := by
  rw [memberPath_eq_objectPath]
  have hsegment : ∀ path : List String,
      (do return path ++ [← m.segmentName] : Read (List String)).Asks m.segmentTexts := by
    intro path
    exact m.asks_segmentName.map fun segment => path ++ [segment]
  rcases member_or_base (m.child? "object") with ⟨o, ho, hmember⟩ | hbase
  · have hsize : o.size < m.size := size_child?_lt ho
    rw [pathTexts_of_member ho hmember, ho, objectPath, if_pos hmember]
    exact o.asks_memberPath.bind fun path _ => hsegment path
  · rw [pathTexts_of_base hbase, objectPath_of_base hbase]
    exact ((asks_baseName _).map List.singleton).bind fun path _ => hsegment path
termination_by m.size

theorem exists_of_memberPath {m : Node} {path : List String} (h : m.memberPath = .ok path) :
    ∃ object segment, objectPath (m.child? "object") = .ok object ∧ path = object ++ [segment] := by
  rw [memberPath_eq_objectPath] at h
  cases hobject : objectPath (m.child? "object") with
  | error e =>
      rw [hobject] at h
      cases h
  | ok object =>
      cases hsegment : m.segmentName with
      | error e =>
          rw [hobject, hsegment] at h
          cases h
      | ok segment =>
          rw [hobject, hsegment] at h
          exact ⟨object, segment, rfl, (Except.ok.inj h).symm⟩

theorem ne_nil_of_objectPath {o : Option Node} {path : List String}
    (h : objectPath o = .ok path) : path ≠ [] := by
  rintro rfl
  rcases member_or_base o with ⟨m, rfl, hmember⟩ | hbase
  · rw [objectPath, if_pos hmember] at h
    obtain ⟨object, segment, -, hnil⟩ := exists_of_memberPath h
    simp at hnil
  · rw [objectPath_of_base hbase] at h
    cases hname : baseName o with
    | error e =>
        rw [hname] at h
        cases h
    | ok name =>
        rw [hname] at h
        cases h

/-- A path has two segments or more: that of the base and that of each member. -/
theorem two_le_length_of_memberPath {m : Node} {path : List String}
    (h : m.memberPath = .ok path) : 2 ≤ path.length := by
  obtain ⟨object, segment, hobject, rfl⟩ := exists_of_memberPath h
  have hlength : 0 < object.length := List.length_pos_iff.2 (ne_nil_of_objectPath hobject)
  rw [List.length_append, List.length_singleton]
  omega

end Node

/-! ## Clues -/

/-- What the name of a scope is read from. -/
inductive Clue where
  /-- It is a program, and nothing is read. -/
  | program
  | identifier (c : Node)
  /-- A path of members, given by its outermost member node. -/
  | members (m : Node)
  /-- The scope is anonymous. -/
  | nothing
deriving DecidableEq, Repr

namespace Clue

/-- What an identifier gives, if there is one. -/
def ofIdentifier? (o : Option Node) : Clue :=
  match Node.identifier? o with
  | some c => .identifier c
  | none => .nothing

/-- What the target of an assignment gives. -/
def ofTarget (target : Node) : Clue :=
  if target.kind.isIdentifier then .identifier target
  else if target.kind.isMember then .members target
  else .nothing

/-- What a node gives to a function that it is around: a declarator the variable, an assignment the
target. -/
def around (p : Node) : Clue :=
  if p.kind = Kind.variableDeclarator then ofIdentifier? (p.child? "name")
  else if p.kind = Kind.assignmentExpression then (p.child? "left").elim .nothing ofTarget
  else .nothing

/-- What the clue reads as. -/
def read : Clue → Node.Read String
  | .program => .ok Scope.programSignature
  | .identifier c => c.readText
  | .members m => ".".intercalate <$> m.memberPath
  | .nothing => .ok Scope.anonymousSignature

/-- The nodes whose texts are read for it, in order. -/
def texts : Clue → List Node
  | .program => []
  | .identifier c => [c]
  | .members m => m.pathTexts
  | .nothing => []

theorem asks_read (c : Clue) : c.read.Asks c.texts := by
  cases c with
  | program => exact Node.Read.asks_ok _
  | identifier c => exact Node.Read.asks_readText c
  | members m => exact m.asks_memberPath.map _
  | nothing => exact Node.Read.asks_ok _

/-- The clue of a function is no marker, and an identifier in it is one of those with the property
`P`. -/
def Names (P : Node → Prop) : Clue → Prop
  | .program => False
  | .identifier c => c.kind.isIdentifier = true ∧ P c
  | .members _ => True
  | .nothing => True

theorem names_ofIdentifier? {P : Node → Prop} {o : Option Node} (h : ∀ c ∈ o, P c) :
    (ofIdentifier? o).Names P := by
  unfold ofIdentifier?
  cases hc : Node.identifier? o with
  | none => trivial
  | some c =>
      obtain ⟨rfl, hid⟩ := Option.filter_eq_some_iff.1 hc
      exact ⟨hid, h c rfl⟩

theorem names_ofTarget {P : Node → Prop} {target : Node} (h : P target) :
    (ofTarget target).Names P := by
  unfold ofTarget
  split
  · next hid => exact ⟨hid, h⟩
  split <;> trivial

/-- An identifier that a node gives is below it. -/
theorem names_around (p : Node) : (around p).Names (· ∈ p.nodes) := by
  unfold around
  split
  · exact names_ofIdentifier? fun c hc => Node.mem_nodes_of_child? hc
  split
  · cases htarget : p.child? "left" with
    | none => trivial
    | some target => exact names_ofTarget (Node.mem_nodes_of_child? htarget)
  · trivial

theorem Names.mono {P Q : Node → Prop} {clue : Clue} (h : clue.Names P) (hPQ : ∀ c, P c → Q c) :
    clue.Names Q := by
  cases clue with
  | program => exact h
  | identifier c => exact ⟨h.1, hPQ c h.2⟩
  | members m => trivial
  | nothing => trivial

end Clue

namespace Scope

/-- What the name of a scope is read from: its own name comes before what is around it. -/
def clue (s : Scope) : Clue :=
  if s.node.kind = Kind.program then .program
  else
    match Node.identifier? (s.node.child? "name") with
    | some c => .identifier c
    | none => s.parent.elim .nothing Clue.around

variable {s : Scope}

/-- A function's own name comes first. -/
theorem functionName?_of_identifier {c : Node}
    (h : Node.identifier? (s.node.child? "name") = some c) :
    s.functionName? = some <$> c.readText := by
  unfold functionName? ownName?
  rw [Node.identifierName?_of_identifier h]
  cases c.readText <;> rfl

theorem functionName?_of_unnamed (h : Node.identifier? (s.node.child? "name") = none) :
    s.functionName? = (do
      if let some name ← s.variableName? then return some name
      s.assignedName?) := by
  unfold functionName? ownName?
  rw [Node.identifierName?_of_no_identifier h]
  rfl

theorem read_ofTarget (target : Node) :
    (do return (← targetName? target).getD anonymousSignature) = (Clue.ofTarget target).read := by
  unfold targetName? Clue.ofTarget
  by_cases hid : target.kind.isIdentifier = true
  · rw [Node.identifierName?_of_isIdentifier hid, if_pos hid]
    show _ = target.readText
    cases target.readText <;> rfl
  · rw [Node.identifierName?_of_not_isIdentifier hid, if_neg hid]
    by_cases hmember : target.kind.isMember = true
    · simp only [hmember, if_true]
      show _ = ".".intercalate <$> target.memberPath
      cases target.memberPath <;> rfl
    · simp only [hmember]
      rfl

/-- A function without a name of its own is called by what is around it. -/
theorem functionName?_around {p : Node} (h : Node.identifier? (s.node.child? "name") = none)
    (hparent : s.parent = some p) :
    (do return (← s.functionName?).getD anonymousSignature) = (Clue.around p).read := by
  rw [functionName?_of_unnamed h]
  unfold variableName? assignedName? Clue.around
  rw [hparent]
  by_cases hdeclarator : p.kind = Kind.variableDeclarator
  · have hassignment : ¬ (p.kind == Kind.assignmentExpression) = true := by
      rw [hdeclarator]
      decide
    simp only [hdeclarator, beq_self_eq_true, if_true]
    cases hname : Node.identifier? (p.child? "name") with
    | some c =>
        rw [Node.identifierName?_of_identifier hname, Clue.ofIdentifier?, hname]
        show _ = c.readText
        cases c.readText <;> rfl
    | none =>
        rw [Node.identifierName?_of_no_identifier hname, Clue.ofIdentifier?, hname]
        rfl
  · simp only [beq_false_of_ne hdeclarator, if_neg hdeclarator]
    by_cases hassignment : p.kind = Kind.assignmentExpression
    · simp only [hassignment, beq_self_eq_true, if_true]
      cases p.child? "left" with
      | none => rfl
      | some target => exact read_ofTarget target
    · simp only [beq_false_of_ne hassignment, if_neg hassignment]
      rfl

/-- **A signature is what the clue reads as.** -/
theorem signature_eq_read (s : Scope) : s.signature = s.clue.read := by
  unfold signature clue
  by_cases hprogram : s.node.kind = Kind.program
  · rw [isProgram, if_pos (beq_iff_eq.2 hprogram), if_pos hprogram]
    rfl
  rw [isProgram, if_neg (fun e => hprogram (eq_of_beq e)), if_neg hprogram]
  cases hname : Node.identifier? (s.node.child? "name") with
  | some c =>
      rw [functionName?_of_identifier hname]
      show _ = c.readText
      cases c.readText <;> rfl
  | none =>
      cases hparent : s.parent with
      | none =>
          rw [functionName?_of_unnamed hname, variableName?, assignedName?, hparent]
          rfl
      | some p => exact functionName?_around hname hparent

/-- **A signature asks for the texts of the clue.** -/
theorem asks_signature (s : Scope) : s.signature.Asks s.clue.texts := by
  rw [signature_eq_read]
  exact s.clue.asks_read

/-! ## Where a clue is found -/

theorem clue_of_program (h : s.node.kind = Kind.program) : s.clue = .program := if_pos h

/-- A function that is assigned to a path of members, and has no name of its own, is called by the
path. -/
theorem clue_of_members {p m : Node} (hfunction : s.node.kind ≠ Kind.program)
    (hown : ∀ c ∈ s.node.child? "name", ¬ c.kind.isIdentifier = true)
    (hparent : s.parent = some p) (hassignment : p.kind = Kind.assignmentExpression)
    (htarget : p.child? "left" = some m) (hmember : m.kind.isMember = true) :
    s.clue = .members m := by
  have hname : Node.identifier? (s.node.child? "name") = none :=
    Option.filter_eq_none_iff.2 hown
  have hdeclarator : ¬ p.kind = Kind.variableDeclarator := by
    rw [hassignment]
    decide
  have hid : ¬ m.kind.isIdentifier = true := by
    have hall : ∀ k ∈ Kind.members, ¬ Kind.isIdentifier k = true := by decide
    exact hall m.kind (List.contains_iff_mem.1 hmember)
  unfold clue
  rw [if_neg hfunction, hname, hparent]
  show Clue.around p = _
  unfold Clue.around
  rw [if_neg hdeclarator, if_pos hassignment, htarget]
  show Clue.ofTarget m = _
  unfold Clue.ofTarget
  rw [if_neg hid, if_pos hmember]

/-- An identifier that gives a name is below the node of the scope or below the node around it. -/
theorem names_clue (hfunction : s.node.kind ≠ Kind.program) :
    s.clue.Names fun c => c ∈ s.node.nodes ∨ ∃ p ∈ s.parent, c ∈ p.nodes := by
  unfold clue
  rw [if_neg hfunction]
  cases hname : Node.identifier? (s.node.child? "name") with
  | some c =>
      obtain ⟨hc, hid⟩ := Option.filter_eq_some_iff.1 hname
      exact ⟨hid, Or.inl (Node.mem_nodes_of_child? hc)⟩
  | none =>
      cases hparent : s.parent with
      | none => trivial
      | some p => exact (Clue.names_around p).mono fun c hc => Or.inr ⟨p, rfl, hc⟩

end Scope

/-- The signature of a number is that of its scope. -/
theorem Store.signature_of_get? {s : Store} {id : ScopeId} {scope : Scope}
    (h : s.get? id = some scope) : s.signature id = scope.signature.orFail := by
  rw [Store.signature, h]

end ScopeScore
