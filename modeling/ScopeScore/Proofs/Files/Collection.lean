import ScopeScore.Proofs.Files.Search
import Mathlib.Data.List.Sort

set_option autoImplicit false

/-! # What a search collects, and in which order

A search collects the files for which its paths stand, once each and in the order of their paths
(`Disk.pairwise_before_of_collect`). So it is known from these files alone, and paths may be given
twice or in another order. Nor does it matter if a path is added that a folder covers
(`Disk.Covers`), since all files for which it stands are below the folder already.

* **`Disk.collect_is_exact`**: how a search ends, what it collects, and which paths make no
  difference.
* `Disk.collect_longName`: a name that is too long is no path that exists, but the search does not
  say so.
-/

namespace ScopeScore

theorem nodup_eraseDups {α : Type} [BEq α] [LawfulBEq α] (xs : List α) : xs.eraseDups.Nodup := by
  cases xs with
  | nil => simp
  | cons x xs =>
      rw [List.eraseDups_cons, List.nodup_cons, List.mem_eraseDups]
      constructor
      · simp
      · exact nodup_eraseDups _
termination_by xs.length
decreasing_by exact Nat.lt_succ_of_le (List.length_filter_le _ _)

theorem Path.Canonical.append {p : Path} (h : p.Canonical) {names : List String}
    (hnames : ∀ name ∈ names, Item.isName name = true) : (p.append names).Canonical := by
  have hname : ∀ name ∈ names, Path.isTold name = true ∧ '/' ∉ name.toList := by
    intro name hmem
    obtain ⟨hempty, hpoint, -, hslash, -, -⟩ := Item.isName_iff.1 (hnames name hmem)
    exact ⟨by simp [isTold, hempty, hpoint], hslash⟩
  refine ⟨h.root, fun name hmem => ?_, fun name hmem => ?_⟩
  · rcases List.mem_append.1 hmem with hmem | hmem
    · exact h.told name hmem
    · exact (hname name hmem).1
  · rcases List.mem_append.1 hmem with hmem | hmem
    · exact h.slashless name hmem
    · exact (hname name hmem).2

namespace Disk

variable {d : Disk} {suffixes : List String} {p q r : Path} {paths paths' files : List Path}

/-! ## The order of what is collected -/

theorem canonical_of_standsFor (hregular : d.isRegular = true) (hp : p.Canonical)
    (h : d.StandsFor suffixes p q) : q.Canonical := by
  unfold StandsFor at h
  split at h
  · exact h ▸ hp
  · next folder _ hitem =>
      obtain ⟨names, name, octets, hget, -, rfl⟩ := h
      exact hp.append (Item.isName_of_get? (isRegular_of_item? hregular hitem) hget)
  · exact h.elim

/-- **What is collected is in order**, and so no path is there twice. -/
theorem pairwise_before_of_collect (hregular : d.isRegular = true)
    (hpaths : ∀ p ∈ paths, p.Canonical) (h : d.collect suffixes paths = .ok files) :
    files.Pairwise Path.Before := by
  obtain ⟨found, hfound, hcollect⟩ :=
    collect_of_searchable hregular (searchable_of_collect hregular h) suffixes
  rw [hcollect] at h
  split at h
  · cases h
  · cases h
    have hcanonical : ∀ q ∈ found.eraseDups.mergeSort Path.le, q.Canonical := by
      intro q hq
      rw [List.mem_mergeSort, List.mem_eraseDups, hfound] at hq
      obtain ⟨p, hp, hstands⟩ := hq
      exact canonical_of_standsFor hregular (hpaths p hp) hstands
    have hnodup : (found.eraseDups.mergeSort Path.le).Nodup :=
      (List.mergeSort_perm _ _).nodup_iff.2 (nodup_eraseDups found)
    have hsorted := Path.pairwise_le_mergeSort found.eraseDups
    exact (hsorted.and hnodup).imp_of_mem fun ha hb ⟨hle, hne⟩ =>
      Path.before_of_le (hcanonical _ ha) (hcanonical _ hb) hle hne

/-! ## Paths that make no difference -/

/-- Is `q` below the folder of `p`, and is it a folder, or a file with one of the suffixes? Its path
is that of the folder, with more names. -/
def Covers (d : Disk) (suffixes : List String) (p q : Path) : Prop :=
  ∃ own items names item, d.item? p = some (.folder own items) ∧
    (Item.folder own items).get? names = some item ∧ q = p.append names ∧
    ∀ name octets, item = .file name octets → Path.suffix name ∈ suffixes

/-- What is below can be searched too. -/
theorem searchable_of_covers (hregular : d.isRegular = true) (hp : d.Searchable p)
    (h : d.Covers suffixes p q) : d.Searchable q := by
  obtain ⟨own, items, names, item, htop, hget, rfl, -⟩ := h
  have hitem := item?_append hregular hp.2 htop hget
  refine ⟨⟨item, hitem⟩, ?_⟩
  obtain ⟨-, hlookup⟩ := item?_eq_some_iff.1 hitem
  rintro ⟨-, hlong | ⟨top, below, inner, hbelow, hinner, hlong⟩⟩
  · rw [hlookup] at hlong
    cases hlong
  · obtain rfl : item = top := Except.ok.inj (hlookup.symm.trans hbelow)
    have hfurther : (Item.folder own items).get? (names ++ below) = some inner := by
      rw [Item.get?_append, hget]
      exact hinner
    have hshort := isTooLong_of_not_overlong hp.2 htop hfurther
    rw [Path.append_append, hshort] at hlong
    cases hlong

/-- A folder stands for all for which a path stands that it covers. -/
theorem standsFor_of_covers (hregular : d.isRegular = true) (hp : d.Searchable p)
    (h : d.Covers suffixes p q) (hq : d.StandsFor suffixes q r) : d.StandsFor suffixes p r := by
  obtain ⟨own, items, names, item, htop, hget, rfl, hsuffix⟩ := h
  unfold StandsFor at hq ⊢
  rw [item?_append hregular hp.2 htop hget] at hq
  rw [htop]
  cases item with
  | file name octets => exact ⟨names, name, octets, hget, hsuffix name octets rfl, hq⟩
  | folder inner others =>
      obtain ⟨below, name, octets, hbelow, hname, rfl⟩ := hq
      refine ⟨names ++ below, name, octets, ?_, hname, Path.append_append p names below⟩
      rw [Item.get?_append, hget]
      exact hbelow

theorem canonical_of_covers (hregular : d.isRegular = true) (hp : p.Canonical)
    (h : d.Covers suffixes p q) : q.Canonical := by
  obtain ⟨own, items, names, item, htop, hget, rfl, -⟩ := h
  exact hp.append (Item.isName_of_get? (isRegular_of_item? hregular htop) hget)

/-- What is collected depends on the files for which the paths stand, and on nothing else. -/
theorem collect_eq_of_standsFor_iff (hregular : d.isRegular = true)
    (hpaths : ∀ p ∈ paths, p.Canonical) (hpaths' : ∀ p ∈ paths', p.Canonical)
    (hsearchable : ∀ p ∈ paths', d.Searchable p)
    (hsame : ∀ q, (∃ p ∈ paths', d.StandsFor suffixes p q) ↔ ∃ p ∈ paths, d.StandsFor suffixes p q)
    (h : d.collect suffixes paths = .ok files) : d.collect suffixes paths' = .ok files := by
  have hfound : ∃ q, ∃ p ∈ paths, d.StandsFor suffixes p q := by
    by_contra hnone
    have hnothing := (collect_eq_nothingFound_iff hregular (searchable_of_collect hregular h)
      suffixes).2 fun p hp q hq => hnone ⟨q, p, hp, hq⟩
    rw [h] at hnothing
    cases hnothing
  obtain ⟨q, hq⟩ := hfound
  obtain ⟨p, hp, hstands⟩ := (hsame q).2 hq
  obtain ⟨files', hfiles'⟩ := exists_collect_of_standsFor hregular hsearchable hp hstands
  have hmem : ∀ q, q ∈ files' ↔ q ∈ files := by
    intro q
    rw [mem_collect_iff hregular hfiles', mem_collect_iff hregular h, hsame]
  have hsorted := pairwise_before_of_collect hregular hpaths h
  have hsorted' := pairwise_before_of_collect hregular hpaths' hfiles'
  rw [hfiles', hsorted'.eq_of_mem_iff hsorted hmem]

/-- Paths that are there already or covered by a folder change nothing. -/
theorem collect_eq_of_covers (hregular : d.isRegular = true) (hpaths : ∀ p ∈ paths, p.Canonical)
    (h : d.collect suffixes paths = .ok files) (hsub : paths ⊆ paths')
    (hcovered : ∀ q ∈ paths', q ∈ paths ∨ ∃ p ∈ paths, d.Covers suffixes p q) :
    d.collect suffixes paths' = .ok files := by
  have hsearchable := searchable_of_collect hregular h
  refine collect_eq_of_standsFor_iff hregular hpaths ?_ ?_ ?_ h
  · intro q hq
    rcases hcovered q hq with hq | ⟨p, hp, hcovers⟩
    · exact hpaths q hq
    · exact canonical_of_covers hregular (hpaths p hp) hcovers
  · intro q hq
    rcases hcovered q hq with hq | ⟨p, hp, hcovers⟩
    · exact hsearchable q hq
    · exact searchable_of_covers hregular (hsearchable p hp) hcovers
  · intro r
    constructor
    · rintro ⟨q, hq, hstands⟩
      rcases hcovered q hq with hq | ⟨p, hp, hcovers⟩
      · exact ⟨q, hq, hstands⟩
      · exact ⟨p, hp, standsFor_of_covers hregular (hsearchable p hp) hcovers hstands⟩
    · rintro ⟨p, hp, hstands⟩
      exact ⟨p, hsub hp, hstands⟩

/-! ## All about a search -/

/-- **A search is exact.** The paths are as reading gives them.

* The first path that cannot be searched ends the search. It is told as missing if there is nothing
  at it, unless it is too long, which is a fault of its own.
* If all can be searched, the search fails exactly if the paths stand for nothing. Otherwise it
  collects the files for which they stand, each before the next.
* If it succeeds, it collects the same from all paths that have these among them and others only
  that a folder of theirs covers, in any order and however often. -/
theorem collect_is_exact (d : Disk) (suffixes : List String) (paths : List Path)
    (regular : d.isRegular = true) (canonical : ∀ p ∈ paths, p.Canonical) :
    (∀ before p after, paths = before ++ p :: after → (∀ q ∈ before, d.Searchable q) →
      (d.item? p = none → ¬ d.Overlong p →
        d.collect suffixes paths = .error (.noSuchPath p.toString)) ∧
      (d.Overlong p → ∃ names,
        d.collect suffixes paths = .error (.access (.tooLong (p.append names).toString)))) ∧
    ((∀ p ∈ paths, d.Searchable p) →
      (d.collect suffixes paths = .error .nothingFound ↔
        ∀ p ∈ paths, ∀ q, ¬ d.StandsFor suffixes p q) ∧
      ((∃ p ∈ paths, ∃ q, d.StandsFor suffixes p q) → ∃ files,
        d.collect suffixes paths = .ok files ∧
        (∀ q, q ∈ files ↔ ∃ p ∈ paths, d.StandsFor suffixes p q) ∧
        files.Pairwise Path.Before)) ∧
    ∀ files, d.collect suffixes paths = .ok files → ∀ paths', paths ⊆ paths' →
      (∀ q ∈ paths', q ∈ paths ∨ ∃ p ∈ paths, d.Covers suffixes p q) →
      d.collect suffixes paths' = .ok files := by
  refine ⟨?_, ?_, ?_⟩
  · rintro before p after rfl hbefore
    constructor
    · intro hmissing hshort
      exact collect_of_first regular hbefore (expand_of_missing hmissing hshort) after
    · intro hlong
      obtain ⟨names, hexpand⟩ := expand_of_overlong regular hlong suffixes
      exact ⟨names, collect_of_first regular hbefore hexpand after⟩
  · intro hsearchable
    refine ⟨collect_eq_nothingFound_iff regular hsearchable suffixes, ?_⟩
    rintro ⟨p, hp, q, hstands⟩
    obtain ⟨files, hfiles⟩ := exists_collect_of_standsFor regular hsearchable hp hstands
    exact ⟨files, hfiles, mem_collect_iff regular hfiles,
      pairwise_before_of_collect regular canonical hfiles⟩
  · intro files hfiles paths' hsub hcovered
    exact collect_eq_of_covers regular canonical hfiles hsub hcovered

/-- A disk with a folder in a folder. The inner one is called like a source file. -/
def nestedDisk : Disk where
  root := .folder "" [
    .folder "lib" [.file "b.js" [], .folder "x.js" [.file "a.mjs" [], .file "notes.txt" []]],
    .file "readme" []]

theorem expand_nestedDisk :
    nestedDisk.expand sourceSuffixes (Path.ofString "lib") =
      .ok (["lib/b.js", "lib/x.js/a.mjs"].map Path.ofString) := by
  have hlookup : nestedDisk.lookup (Path.ofString "lib") = .ok (.folder "lib"
      [.file "b.js" [], .folder "x.js" [.file "a.mjs" [], .file "notes.txt" []]]) := rfl
  rw [expand, hlookup]
  simp only [filesBelow, Item.filesBelow, Item.filesAmong, Item.itemsBelow, Item.itemsInside]
  decide +kernel

/-- A folder and a file beside it; the same with a folder inside the first, and with the first one
twice; and two files that are not there, of which the first is told. -/
theorem collect_nestedDisk :
    (∃ files, nestedDisk.collect sourceSuffixes (["readme", "lib"].map Path.ofString) = .ok files ∧
      Path.ofString "lib/x.js/a.mjs" ∈ files ∧ files.Pairwise Path.Before ∧
      nestedDisk.collect sourceSuffixes (["lib/x.js", "lib", "readme", "lib"].map Path.ofString) =
        .ok files) ∧
    nestedDisk.collect sourceSuffixes (["lib", "lib/c.js", "lib/d.js"].map Path.ofString) =
      .error (.noSuchPath "lib/c.js") := by
  have hregular : nestedDisk.isRegular = true := by decide
  have hcanonical : ∀ texts : List String, ∀ p ∈ texts.map Path.ofString, p.Canonical := by
    intro texts p hp
    obtain ⟨text, -, rfl⟩ := List.mem_map.1 hp
    exact Path.canonical_ofString text
  have hlib : nestedDisk.Searchable (Path.ofString "lib") :=
    searchable_of_expand hregular expand_nestedDisk
  constructor
  · have hexpand : nestedDisk.expand sourceSuffixes (Path.ofString "readme") =
        .ok [Path.ofString "readme"] := rfl
    have hreadme := searchable_of_expand hregular hexpand
    have hstands : nestedDisk.StandsFor sourceSuffixes (Path.ofString "lib")
        (Path.ofString "lib/x.js/a.mjs") :=
      ⟨["x.js", "a.mjs"], "a.mjs", [], rfl, by decide, rfl⟩
    have hcovers : nestedDisk.Covers sourceSuffixes (Path.ofString "lib")
        (Path.ofString "lib/x.js") :=
      ⟨"lib", _, ["x.js"], _, rfl, rfl, rfl, by simp⟩
    obtain ⟨-, hfound, hsame⟩ := collect_is_exact nestedDisk sourceSuffixes
      (["readme", "lib"].map Path.ofString) hregular (hcanonical _)
    obtain ⟨files, hfiles, hmem, hsorted⟩ :=
      (hfound (by simp [hlib, hreadme])).2 ⟨_, by simp, _, hstands⟩
    refine ⟨files, hfiles, (hmem _).2 ⟨_, by simp, hstands⟩, hsorted, ?_⟩
    refine hsame files hfiles _ (by decide) fun q hq => ?_
    simp only [List.map_cons, List.map_nil, List.mem_cons, List.not_mem_nil, or_false] at hq
    rcases hq with rfl | rfl | rfl | rfl
    · exact Or.inr ⟨_, by simp, hcovers⟩
    · exact Or.inl (by simp)
    · exact Or.inl (by simp)
    · exact Or.inl (by simp)
  · have hexpand : nestedDisk.expand sourceSuffixes (Path.ofString "lib/c.js") =
        .error (.noSuchPath "lib/c.js") := by decide +kernel
    have hother : ∀ path, nestedDisk.expand sourceSuffixes (Path.ofString "lib/c.js") ≠
        .error (.access (.tooLong path)) := by
      intro path
      rw [hexpand]
      simp
    obtain ⟨hfirst, -, -⟩ := collect_is_exact nestedDisk sourceSuffixes
      (["lib", "lib/c.js", "lib/d.js"].map Path.ofString) hregular (hcanonical _)
    have hmissing := hfirst [Path.ofString "lib"] (Path.ofString "lib/c.js")
      [Path.ofString "lib/d.js"] rfl (by simpa using hlib)
    exact hmissing.1 rfl (not_overlong_of_expand hregular hother)

/-- **A path that leads nowhere, but is not told as missing.** A name of 256 letters is one more
than a disk allows, and looking it up is a fault of its own. -/
theorem collect_longName :
    let name := String.ofList (List.replicate 256 'a')
    nestedDisk.item? (Path.ofString name) = none ∧
    nestedDisk.collect sourceSuffixes [Path.ofString name] = .error (.access (.tooLong name)) ∧
    nestedDisk.collect sourceSuffixes [Path.ofString name] ≠
      .error (.noSuchPath (Path.ofString name).toString) := by
  intro name
  have hletters : name.toList = List.replicate 256 'a' := String.toList_ofList
  have hslash : '/' ∉ name.toList := by
    rw [hletters]
    exact fun h => absurd (List.eq_of_mem_replicate h) (by decide)
  have hnul : Char.ofNat 0 ∉ name.toList := by
    rw [hletters]
    exact fun h => absurd (List.eq_of_mem_replicate h) (by decide)
  have htold : Path.isTold name = true := by decide +kernel
  have hlong : Path.nameLimit < name.utf8ByteSize := by decide +kernel
  have hcollect : nestedDisk.collect sourceSuffixes [Path.ofString name] =
      .error (.access (.tooLong name)) := collect_of_longName htold hslash hnul hlong rfl
  refine ⟨?_, hcollect, ?_⟩
  · rw [Path.ofString_name htold hslash, item?, lookup_of_longName hlong rfl]
    simp
  · rw [hcollect]
    simp

end Disk

end ScopeScore
