import ScopeScore.Proofs.Analyzer.Assignments
import ScopeScore.Proofs.Scope.Clues

set_option autoImplicit false

/-! # String literals as segments

Between the quotes of a string literal stand plain fragments and escape sequences (`Node.IsLiteral`),
and the texts of all of them are its contents (`Node.contents`). What is read off the literal is less:
the texts of the fragments, without the escape sequences.

* **`Node.join_fragmentTexts_eq_contents_iff`**: nothing is lost exactly if there is no escape
  sequence to lose.
* `Scope.signature_of_subscript`: a function that is assigned to `obj['…']` is called by what is read
  off the literal.
* **`Node.segments_of_literals`** has both, and which literals can be told apart.
* **`Node.segments_brokenLine`**: `obj['a\nb']` and `obj['ab']` have the same name.
-/

namespace ScopeScore

/-- A backslash and what belongs to it, inside a string. -/
def Kind.escapeSequence : Kind := "escape_sequence"

namespace Node

/-! ## Contents -/

/-- A string literal as a parser builds it: its named children are the pieces of what stands between
the quotes, in order, and each piece is a leaf with a text that can be read. -/
structure IsLiteral (n : Node) : Prop where
  kind : n.kind = Kind.string
  pieces : ∀ c ∈ n.namedChildren, c.kind = Kind.stringFragment ∨ c.kind = Kind.escapeSequence
  leaves : ∀ c ∈ n.namedChildren, c.children = []
  legible : ∀ c ∈ n.namedChildren, ∃ text, c.readText = .ok text

/-- All that stands between the quotes. -/
def contents (n : Node) : String := String.join (n.namedChildren.map plainText)

/-- Has the literal no escape sequence? One without a text does not count. -/
def EscapeFree (n : Node) : Prop :=
  ∀ c ∈ n.namedChildren, c.kind = Kind.escapeSequence → c.plainText = ""

instance (n : Node) : Decidable n.IsLiteral :=
  decidable_of_iff
    (n.kind = Kind.string ∧
      (∀ c ∈ n.namedChildren, c.kind = Kind.stringFragment ∨ c.kind = Kind.escapeSequence) ∧
      (∀ c ∈ n.namedChildren, c.children = []) ∧ ∀ c ∈ n.namedChildren, c.readText.isOk = true)
    ⟨fun ⟨kind, pieces, leaves, legible⟩ =>
      ⟨kind, pieces, leaves, fun c hc => isOk_iff_exists.1 (legible c hc)⟩,
    fun h => ⟨h.kind, h.pieces, h.leaves, fun c hc => isOk_iff_exists.2 (h.legible c hc)⟩⟩

instance (n : Node) : Decidable n.EscapeFree :=
  inferInstanceAs (Decidable (∀ c ∈ n.namedChildren, _))

section Joining

variable {α : Type} (p : α → Bool) (f : α → String) (xs : List α)

theorem length_join_filter_le :
    (String.join ((xs.filter p).map f)).length ≤ (String.join (xs.map f)).length := by
  induction xs with
  | nil => simp
  | cons x xs ih =>
      by_cases hx : p x = true
      · simp only [List.filter_cons_of_pos hx, List.map_cons, String.join_cons, String.length_append]
        omega
      · simp only [List.filter_cons_of_neg hx, List.map_cons, String.join_cons, String.length_append]
        omega

/-- Leaving texts out changes the joined text, unless they are empty. -/
theorem join_filter_eq_join_iff :
    String.join ((xs.filter p).map f) = String.join (xs.map f) ↔
      ∀ x ∈ xs, p x = false → f x = "" := by
  induction xs with
  | nil => simp
  | cons x xs ih =>
      rw [List.forall_mem_cons, ← ih, List.map_cons, String.join_cons]
      by_cases hx : p x = true
      · rw [List.filter_cons_of_pos hx, List.map_cons, String.join_cons, String.append_right_inj]
        simp [hx]
      · rw [List.filter_cons_of_neg hx]
        have hle := length_join_filter_le p f xs
        constructor
        · intro h
          -- the rest is not longer than before, so there is no room for `f x`
          have hlength := congrArg String.length h
          rw [String.length_append] at hlength
          have hempty : f x = "" := String.length_eq_zero_iff.1 (by omega)
          rw [hempty, String.empty_append] at h
          exact ⟨fun _ => hempty, h⟩
        · rintro ⟨hempty, h⟩
          rw [hempty (Bool.eq_false_iff.2 hx), String.empty_append, h]

end Joining

variable {n : Node}

/-- **The fragments are the contents exactly if there is no escape sequence.** -/
theorem join_fragmentTexts_eq_contents_iff (h : n.IsLiteral) :
    String.join n.fragmentTexts = n.contents ↔ n.EscapeFree := by
  rw [fragmentTexts_eq, stringFragments, contents, join_filter_eq_join_iff]
  refine forall₂_congr fun c hc => imp_congr_left ?_
  rw [beq_eq_false_iff_ne]
  constructor
  · exact (h.pieces c hc).resolve_left
  · intro hescape
    rw [hescape]
    decide

/-! ## What is read off a literal -/

theorem IsLiteral.mapM_readText_eq (h : n.IsLiteral) :
    n.stringFragments.mapM readText = .ok n.fragmentTexts := by
  apply Node.mapM_readText_eq
  intro c hc
  exact readText_eq_plainText (h.legible c (List.mem_filter.1 hc).1)

theorem IsLiteral.literalValue?_eq (h : n.IsLiteral) :
    literalValue? (some n) = .ok (some (String.join n.fragmentTexts)) := by
  have hnumber : ¬ (n.kind == Kind.number) = true := by
    rw [h.kind]
    decide
  rw [literalValue?, if_neg hnumber, if_pos (beq_iff_eq.2 h.kind), h.mapM_readText_eq]
  rfl

theorem IsLiteral.segmentName_eq (h : n.IsLiteral) {m : Node} (hm : m.selector? = some n) :
    m.segmentName = .ok (String.join n.fragmentTexts) := by
  rw [segmentName_eq_partName, hm, partName_of_string h.kind, h.mapM_readText_eq]
  rfl

theorem selector?_of_subscript {m : Node} (hm : m.kind = Kind.subscriptExpression) :
    m.selector? = m.child? "index" := by
  have hkind : ¬ (m.kind == Kind.memberExpression) = true := by
    rw [hm]
    decide
  rw [selector?, if_neg hkind]

end Node

/-! ## Names of functions -/

namespace Scope

/-- Is this the scope of a function without a name, in an assignment to `target`? -/
structure IsAssignedTo (s : Scope) (target : Node) : Prop where
  function : s.node.kind.isFunction = true
  unnamed : ∀ c ∈ s.node.child? "name", c.kind.isIdentifier = false
  assigned : ∃ t, s.parent = some t ∧ t.kind = Kind.assignmentExpression ∧
    t.child? "left" = some target

/-- **A function that is assigned to a subscript** is called by the path of the object, a point and
what is read off the index. -/
theorem signature_of_subscript {s : Scope} {m : Node} {path : List String} {segment : String}
    (hs : s.IsAssignedTo m) (hm : m.kind = Kind.subscriptExpression)
    (hpath : Node.objectPath (m.child? "object") = .ok path)
    (hsegment : m.segmentName = .ok segment) :
    s.signature = .ok (".".intercalate path ++ "." ++ segment) := by
  obtain ⟨t, hparent, ht, hleft⟩ := hs.assigned
  have hid : ¬ m.kind.isIdentifier = true := by
    rw [hm]
    decide
  have hmember : m.kind.isMember = true := by
    rw [hm]
    decide
  have hread : m.memberPath = .ok (path ++ [segment]) := by
    rw [Node.memberPath_eq_objectPath, hpath, hsegment]
    rfl
  have hjoined : ".".intercalate (path ++ [segment]) = ".".intercalate path ++ "." ++ segment := by
    rw [String.intercalate_append_of_ne_nil (Node.ne_nil_of_objectPath hpath)
        (List.cons_ne_nil segment []),
      String.intercalate_singleton]
  have htarget : targetName? m = .ok (some (".".intercalate path ++ "." ++ segment)) := by
    rw [targetName?, Node.identifierName?_of_not_isIdentifier hid]
    show (if _ then _ else _) = _
    rw [if_pos hmember, hread, ← hjoined]
    rfl
  exact signature_of_assigned hs.function hs.unnamed hparent ht hleft htarget

end Scope

namespace Node

/-- **Segments from string literals.** The value of a string literal is made of the texts of its
fragments. That is all that stands between the quotes exactly if it has no escape sequence.

Let a function without a name be assigned to `obj['…']`, and let the path of `obj` be readable. The
signature of the function is that path, a point and the value of the literal.

Two literals give the same segment exactly if their fragments have the same text. So without escape
sequences literals with different contents give different segments. -/
theorem segments_of_literals (n : Node) (hn : n.IsLiteral) :
    literalValue? (some n) = .ok (some (String.join n.fragmentTexts)) ∧
    (literalValue? (some n) = .ok (some n.contents) ↔ n.EscapeFree) ∧
    (∀ (scopes : Store) (id : ScopeId) (s : Scope) (m : Node) (path : List String),
      scopes.get? id = some s → s.IsAssignedTo m → m.kind = Kind.subscriptExpression →
      m.child? "index" = some n → objectPath (m.child? "object") = .ok path →
      scopes.signature id = .ok (".".intercalate path ++ "." ++ String.join n.fragmentTexts) ∧
      (n.EscapeFree → scopes.signature id = .ok (".".intercalate path ++ "." ++ n.contents))) ∧
    ∀ (n' m m' : Node), n'.IsLiteral → m.selector? = some n → m'.selector? = some n' →
      (m.segmentName = m'.segmentName ↔
        String.join n.fragmentTexts = String.join n'.fragmentTexts) ∧
      (n.EscapeFree → n'.EscapeFree → n.contents ≠ n'.contents →
        m.segmentName ≠ m'.segmentName) := by
  have hcontents := join_fragmentTexts_eq_contents_iff hn
  refine ⟨hn.literalValue?_eq, ?_, ?_, ?_⟩
  · rw [hn.literalValue?_eq, Except.ok.injEq, Option.some.injEq, hcontents]
  · intro scopes id s m path hget hs hm hindex hpath
    have hselector : m.selector? = some n := (selector?_of_subscript hm).trans hindex
    have hsignature : scopes.signature id =
        .ok (".".intercalate path ++ "." ++ String.join n.fragmentTexts) := by
      rw [Store.signature_of_get? hget,
        Scope.signature_of_subscript hs hm hpath (hn.segmentName_eq hselector)]
      rfl
    refine ⟨hsignature, fun hfree => ?_⟩
    rw [hsignature, hcontents.2 hfree]
  · intro n' m m' hn' hm hm'
    have hsame : m.segmentName = m'.segmentName ↔
        String.join n.fragmentTexts = String.join n'.fragmentTexts := by
      rw [hn.segmentName_eq hm, hn'.segmentName_eq hm', Except.ok.injEq]
    refine ⟨hsame, fun hfree hfree' hne hsegments => hne ?_⟩
    rw [← hcontents.2 hfree, ← (join_fragmentTexts_eq_contents_iff hn').2 hfree']
    exact hsame.1 hsegments

/-! ## Two literals -/

/-- A literal between apostrophes, as the index of a subscript. -/
def sampleLiteral (pieces : List Node) : Node :=
  let quote : Node :=
    .node { id := 0, kind := "'", named := false, field := none, row := 0, text := none } []
  Chain.held (some "index") Kind.string none ([quote] ++ pieces ++ [quote])

/-- The literal `'a\nb'`. -/
def brokenLine : Node :=
  sampleLiteral [Chain.fragment "a",
    Chain.held none Kind.escapeSequence (some (Utf8.encode "\\n")) [], Chain.fragment "b"]

/-- The literal `'ab'`. -/
def unbrokenLine : Node := sampleLiteral [Chain.fragment "ab"]

/-- The subscript `obj[index]`. -/
def sampleSubscript (index : Node) : Node :=
  Chain.held (some "left") Kind.subscriptExpression none
    [Chain.held (some "object") "identifier" (some (Utf8.encode "obj")) [], index]

/-- The scope of the function in `obj[index] = function () {}`. -/
def sampleAssigned (index : Node) : Scope where
  node := Chain.held (some "right") "function_expression" none []
  parent := some (Chain.held none Kind.assignmentExpression none
    [sampleSubscript index, Chain.held (some "right") "function_expression" none []])
  depth := 1

theorem isAssignedTo_sampleSubscript (index : Node) :
    (sampleAssigned index).IsAssignedTo (sampleSubscript index) where
  function := rfl
  unnamed := nofun
  assigned := ⟨_, rfl, rfl, rfl⟩

/-- Nothing is lost of `'ab'`, the function assigned to `obj['ab']` is called so, and `'a b'` gives
another segment. -/
theorem segments_unbrokenLine :
    literalValue? (some unbrokenLine) = .ok (some "ab") ∧ unbrokenLine.contents = "ab" ∧
    (({} : Store).insert (sampleAssigned unbrokenLine)).signature 0 = .ok "obj.ab" ∧
    (sampleSubscript unbrokenLine).segmentName ≠
      (sampleSubscript (sampleLiteral [Chain.fragment "a b"])).segmentName := by
  have hcontents : unbrokenLine.contents = "ab" := by decide +kernel
  have hfree : unbrokenLine.EscapeFree := by decide +kernel
  obtain ⟨-, hvalue, hnames, hsegments⟩ := segments_of_literals unbrokenLine (by decide +kernel)
  refine ⟨hcontents ▸ hvalue.2 hfree, hcontents, ?_, ?_⟩
  · have hname := (hnames (({} : Store).insert (sampleAssigned unbrokenLine)) 0 _
      (sampleSubscript unbrokenLine) ["obj"] rfl (isAssignedTo_sampleSubscript unbrokenLine)
      rfl rfl rfl).2 hfree
    rwa [hcontents] at hname
  · exact (hsegments _ _ _ (by decide +kernel) rfl rfl).2 hfree (by decide +kernel)
      (by decide +kernel)

/-- **The escape sequence of `'a\nb'` is lost**, so its value is not what stands between the quotes,
and it gives the same segment and the same name as `'ab'`. -/
theorem segments_brokenLine :
    brokenLine.IsLiteral ∧ unbrokenLine.IsLiteral ∧
    brokenLine.contents = "a\\nb" ∧ literalValue? (some brokenLine) = .ok (some "ab") ∧
    (({} : Store).insert (sampleAssigned brokenLine)).signature 0 = .ok "obj.ab" ∧
    unbrokenLine.contents = "ab" ∧
    (sampleSubscript brokenLine).segmentName = (sampleSubscript unbrokenLine).segmentName := by
  have hbroken : brokenLine.IsLiteral := by decide +kernel
  have hunbroken : unbrokenLine.IsLiteral := by decide +kernel
  have hfragments : String.join brokenLine.fragmentTexts = "ab" := by decide +kernel
  have hfragments' : String.join unbrokenLine.fragmentTexts = "ab" := by decide +kernel
  have hsegment : (sampleSubscript brokenLine).segmentName = .ok "ab" := by
    rw [hbroken.segmentName_eq rfl, hfragments]
  have hsegment' : (sampleSubscript unbrokenLine).segmentName = .ok "ab" := by
    rw [hunbroken.segmentName_eq rfl, hfragments']
  refine ⟨hbroken, hunbroken, by decide +kernel, ?_, ?_, by decide +kernel,
    hsegment.trans hsegment'.symm⟩
  · rw [hbroken.literalValue?_eq, hfragments]
  · have hget : (({} : Store).insert (sampleAssigned brokenLine)).get? 0 =
        some (sampleAssigned brokenLine) := rfl
    have hpath : objectPath ((sampleSubscript brokenLine).child? "object") = .ok ["obj"] := rfl
    rw [Store.signature_of_get? hget, Scope.signature_of_subscript
      (isAssignedTo_sampleSubscript brokenLine) rfl hpath hsegment]
    rfl

end Node

end ScopeScore
