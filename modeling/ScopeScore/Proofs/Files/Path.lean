import ScopeScore.Files.Path

set_option autoImplicit false

/-! # Paths and their texts

Reading a path drops what says nothing, so different texts may be the same path. What reading gives
is in a normal form (`Path.Canonical`), and of that the text says all: it is read back from its text
(**`Path.ofString_toString`**), so no two such paths are written alike.

Paths are ordered name by name, and names by code points (`Path.Before`). The order is strict on
such paths: of two that differ, one comes before the other (`Path.before_of_le`).
-/

namespace ScopeScore

namespace Text

theorem splitAt_eq_splitOn (separator : Char) (cs : List Char) :
    splitAt separator cs = cs.splitOn separator := by
  induction cs with
  | nil => rfl
  | cons c cs ih =>
      unfold List.splitOn at ih ⊢
      rw [splitAt, List.splitOnP_cons_eq_if_modifyHead, ← ih]
      by_cases hc : c = separator
      · rw [if_pos hc, if_pos (beq_iff_eq.2 hc)]
      · obtain ⟨part, parts, hsplit⟩ :=
          List.exists_cons_of_ne_nil (splitAt_ne_nil separator cs)
        rw [if_neg hc, if_neg fun h => hc (beq_iff_eq.1 h), hsplit, List.modifyHead_cons]

/-- No part holds the separator. -/
theorem not_mem_of_mem_splitAt {separator : Char} {cs part : List Char}
    (h : part ∈ splitAt separator cs) : separator ∉ part := by
  induction cs generalizing part with
  | nil =>
      obtain rfl : part = [] := by simpa [splitAt] using h
      simp
  | cons c cs ih =>
      obtain ⟨first, parts, hsplit⟩ := List.exists_cons_of_ne_nil (splitAt_ne_nil separator cs)
      rw [splitAt, hsplit] at h
      rw [hsplit] at ih
      by_cases hc : c = separator
      · rw [if_pos hc] at h
        rcases List.mem_cons.1 h with rfl | h
        · simp
        · exact ih h
      · rw [if_neg hc] at h
        rcases List.mem_cons.1 h with rfl | h
        · have hfirst := ih List.mem_cons_self
          simp [hfirst, Ne.symm hc]
        · exact ih (List.mem_cons_of_mem first h)

end Text

namespace Path

/-- Does a name say something, so that it stays when a path is read? -/
def isTold (name : String) : Bool := name != "" && name != "."

/-- The names between the slashes of a text. -/
def namesIn (cs : List Char) : List String :=
  ((Text.splitAt '/' cs).map String.ofList).filter isTold

theorem ofString_eq (s : String) :
    ofString s =
      { root := rootOf (s.toList.takeWhile (· == '/')).length, names := namesIn s.toList } := rfl

theorem rootOf_cases (k : Nat) : rootOf k = "" ∨ rootOf k = "/" ∨ rootOf k = "//" := by
  unfold rootOf
  split
  · exact Or.inl rfl
  · exact Or.inr (Or.inr rfl)
  · exact Or.inr (Or.inl rfl)

/-- A path as reading gives it: its root is one that slashes stand for, and each of its names says
something and holds no slash. -/
structure Canonical (p : Path) : Prop where
  root : p.root = "" ∨ p.root = "/" ∨ p.root = "//"
  told : ∀ name ∈ p.names, isTold name = true
  slashless : ∀ name ∈ p.names, '/' ∉ name.toList

theorem canonical_ofString (s : String) : (ofString s).Canonical := by
  refine ⟨rootOf_cases _, fun name h => (List.mem_filter.1 h).2, fun name h => ?_⟩
  obtain ⟨part, hpart, rfl⟩ := List.mem_map.1 (List.mem_filter.1 h).1
  rw [String.toList_ofList]
  exact Text.not_mem_of_mem_splitAt hpart

/-- Leading slashes leave the names alone. -/
theorem namesIn_slash (cs : List Char) : namesIn ('/' :: cs) = namesIn cs := by
  rw [namesIn, Text.splitAt, if_pos rfl, List.map_cons, List.filter_cons_of_neg (by decide)]
  rfl

/-- Names that say something are found again between the slashes. -/
theorem namesIn_intercalate {names : List String} (told : ∀ name ∈ names, isTold name = true)
    (slashless : ∀ name ∈ names, '/' ∉ name.toList) :
    namesIn (List.intercalate ['/'] (names.map String.toList)) = names := by
  by_cases hnil : names = []
  · subst hnil
    decide
  · have hparts : ∀ part ∈ names.map String.toList, '/' ∉ part := by
      intro part hpart
      obtain ⟨name, hname, rfl⟩ := List.mem_map.1 hpart
      exact slashless name hname
    rw [namesIn, Text.splitAt_eq_splitOn,
      List.splitOn_intercalate '/' hparts (by simpa using hnil), List.map_map]
    have hid : names.map (String.ofList ∘ String.toList) = names := by
      simp
    rw [hid]
    exact List.filter_eq_self.2 told

theorem takeWhile_slash_intercalate {names : List String}
    (told : ∀ name ∈ names, isTold name = true) (slashless : ∀ name ∈ names, '/' ∉ name.toList) :
    (List.intercalate ['/'] (names.map String.toList)).takeWhile (· == '/') = [] := by
  cases names with
  | nil => rfl
  | cons name names =>
      have htold : name ≠ "" := by
        have := told name List.mem_cons_self
        simp only [isTold, Bool.and_eq_true, bne_iff_ne] at this
        exact this.1
      obtain ⟨c, cs, hchars⟩ : ∃ c cs, name.toList = c :: cs :=
        List.exists_cons_of_ne_nil fun h => htold (String.toList_eq_nil_iff.1 h)
      have hc : (c == '/') = false := by
        have hslash := slashless name List.mem_cons_self
        rw [hchars, List.mem_cons, not_or] at hslash
        exact beq_eq_false_iff_ne.2 (Ne.symm hslash.1)
      cases names with
      | nil =>
          rw [List.map_singleton, List.intercalate_singleton, hchars,
            List.takeWhile_cons_of_neg (by simp [hc])]
      | cons next names =>
          rw [List.map_cons, List.map_cons, List.intercalate_cons_cons, hchars, List.cons_append,
            List.cons_append, List.takeWhile_cons_of_neg (by simp [hc])]

/-- **A path is read back from its text.** -/
theorem ofString_toString {p : Path} (h : p.Canonical) : ofString p.toString = p := by
  obtain ⟨root, names⟩ := p
  obtain ⟨hroot, htold, hslashless⟩ := h
  have hnames := namesIn_intercalate htold hslashless
  have hstart := takeWhile_slash_intercalate htold hslashless
  by_cases hempty : root = "" ∧ names = []
  · obtain ⟨rfl, rfl⟩ := hempty
    decide
  · have htext : (toString { root := root, names := names }).toList =
        root.toList ++ List.intercalate ['/'] (names.map String.toList) := by
      unfold toString
      rw [if_neg (by simpa using hempty), String.toList_append, String.toList_intercalate]
      rfl
    have hslashes : ∀ k, (List.replicate k '/' ++
        List.intercalate ['/'] (names.map String.toList)).takeWhile (· == '/') =
          List.replicate k '/' := by
      intro k
      rw [List.takeWhile_append_of_pos (by simp), hstart, List.append_nil]
    have hdropped : ∀ k, namesIn (List.replicate k '/' ++
        List.intercalate ['/'] (names.map String.toList)) = names := by
      intro k
      induction k with
      | zero => exact hnames
      | succ k ih => rw [List.replicate_succ, List.cons_append, namesIn_slash, ih]
    have hread : ∀ k, root.toList = List.replicate k '/' → rootOf k = root →
        ofString (toString { root := root, names := names }) =
          { root := root, names := names } := by
      intro k hk hrootOf
      rw [ofString_eq, htext, hk, hslashes, hdropped, List.length_replicate, hrootOf]
    rcases hroot with rfl | rfl | rfl
    · exact hread 0 rfl rfl
    · exact hread 1 rfl rfl
    · exact hread 2 rfl rfl

theorem append_nil (p : Path) : p.append [] = p := by
  simp [append]

theorem append_append (p : Path) (xs ys : List String) :
    (p.append xs).append ys = p.append (xs ++ ys) := by
  simp [append]

theorem toString_name (name : String) : toString { root := "", names := [name] } = name := by
  simp [toString]

/-- A name alone is the path of that name. -/
theorem ofString_name {name : String} (told : isTold name = true) (slashless : '/' ∉ name.toList) :
    ofString name = { root := "", names := [name] } := by
  have hcanonical : Canonical { root := "", names := [name] } :=
    ⟨Or.inl rfl, by simpa using told, by simpa using slashless⟩
  have hread := ofString_toString hcanonical
  rwa [toString_name] at hread

/-! ## The order of paths -/

/-- Does a name come before another, by the code points of its characters? -/
def NameBefore (a b : String) : Prop :=
  List.Lex (fun c e : Char => c.toNat < e.toNat) a.toList b.toList

/-- Does a path come before another, name by name? -/
def Before (a b : Path) : Prop := List.Lex NameBefore a.orderKey b.orderKey

theorem compare_eq_lt_iff {a b : String} : compare a b = .lt ↔ NameBefore a b :=
  compareOfLessAndEq_eq_lt

theorem compareNames_eq_lt_iff {as bs : List String} :
    compare as bs = .lt ↔ List.Lex NameBefore as bs := by
  induction as generalizing bs with
  | nil => cases bs <;> simp
  | cons a as ih =>
      cases bs with
      | nil => simp
      | cons b bs =>
          rw [List.compare_cons_cons, Ordering.then_eq_lt, compare_eq_lt_iff, ih,
            Std.compare_eq_iff_eq, List.cons_lex_cons_iff]

theorem namesLe_eq_isLE (as bs : List String) : namesLe as bs = (compare as bs).isLE := by
  induction as generalizing bs with
  | nil => cases bs <;> rfl
  | cons a as ih =>
      cases bs with
      | nil => rfl
      | cons b bs =>
          rw [namesLe, List.compare_cons_cons]
          cases compare a b with
          | lt => rfl
          | eq => exact ih bs
          | gt => rfl

variable {a b : Path}

theorem before_iff : a.Before b ↔ compare a.orderKey b.orderKey = .lt :=
  compareNames_eq_lt_iff.symm

theorem compare_orderKey_swap (a b : Path) :
    compare a.orderKey b.orderKey = (compare b.orderKey a.orderKey).swap :=
  Std.OrientedCmp.eq_swap

instance : Std.Irrefl Before where
  irrefl a h := by
    have hself : compare a.orderKey a.orderKey = .eq := Std.ReflCmp.compare_self
    rw [before_iff, hself] at h
    cases h

instance : Std.Antisymm Before where
  antisymm a b hab hba := by
    rw [before_iff] at hab hba
    rw [compare_orderKey_swap, hba] at hab
    cases hab

/-- Only a root holds a slash, so it is not taken for a name. -/
theorem Canonical.isAbsolute_iff (h : a.Canonical) :
    a.isAbsolute = true ↔ ∃ name ∈ a.orderKey, '/' ∈ name.toList := by
  unfold orderKey
  split
  · next habsolute =>
      refine iff_of_true habsolute ⟨a.root, List.mem_cons_self, ?_⟩
      rcases h.root with hroot | hroot | hroot
      · simp [isAbsolute, hroot] at habsolute
      · simp [hroot]
      · simp [hroot]
  · next hrelative =>
      refine iff_of_false hrelative ?_
      rintro ⟨name, hname, hslash⟩
      exact h.slashless name hname hslash

theorem eq_of_orderKey_eq (ha : a.Canonical) (hb : b.Canonical) (h : a.orderKey = b.orderKey) :
    a = b := by
  have habsolute : a.isAbsolute = b.isAbsolute := by
    rw [Bool.eq_iff_iff, ha.isAbsolute_iff, hb.isAbsolute_iff, h]
  obtain ⟨aroot, anames⟩ := a
  obtain ⟨broot, bnames⟩ := b
  unfold orderKey at h
  rw [habsolute] at h
  split at h
  · obtain ⟨rfl, rfl⟩ := List.cons.inj h
    rfl
  · next hrelative =>
      have hb' : broot = "" := by simpa [isAbsolute] using hrelative
      have ha' : aroot = "" := by simpa [isAbsolute, hb'] using habsolute
      obtain rfl : anames = bnames := h
      rw [ha', hb']

/-- Paths in order, of which no two are the same, are in strict order. -/
theorem before_of_le (ha : a.Canonical) (hb : b.Canonical) (hle : le a b = true) (hne : a ≠ b) :
    a.Before b := by
  rw [le, namesLe_eq_isLE] at hle
  rw [before_iff]
  cases hcompare : compare a.orderKey b.orderKey with
  | lt => rfl
  | eq => exact absurd (eq_of_orderKey_eq ha hb (Std.LawfulEqCmp.eq_of_compare hcompare)) hne
  | gt =>
      rw [hcompare] at hle
      cases hle

theorem pairwise_le_mergeSort (paths : List Path) :
    (paths.mergeSort le).Pairwise fun a b => le a b = true := by
  refine List.pairwise_mergeSort (fun a b c hab hbc => ?_) (fun a b => ?_) paths
  · rw [le, namesLe_eq_isLE] at *
    exact Std.TransCmp.isLE_trans hab hbc
  · rw [le, le, namesLe_eq_isLE, namesLe_eq_isLE, compare_orderKey_swap]
    cases compare b.orderKey a.orderKey <;> rfl

end Path

end ScopeScore
