import ScopeScore.Files.Collect
import ScopeScore.Proofs.Files.Disk
import ScopeScore.Proofs.Files.Path
import ScopeScore.Proofs.Traversal

set_option autoImplicit false

/-! # Searching for files

A search takes paths one after the other. What it finds at a path is what the path stands for
(`Disk.StandsFor`), if there is something and no path below is too long (`Disk.Searchable`). The
first path that cannot be searched ends the search.

* `Disk.expand_of_searchable`, `Disk.expand_of_missing`, `Disk.expand_of_overlong`: the search at
  one path.
* **`Disk.mem_collect_iff`**: what is collected are the files for which the paths stand, and
  `Disk.exists_readFile_of_mem_collect`: all of them can be opened.
* `Disk.cause_of_collect_eq_error`: why a search may fail. One of the causes is a name that is too
  long, which no item can have (`Disk.collect_of_longName`).
-/

namespace ScopeScore

namespace Disk

variable {d : Disk}

/-! ## What a path stands for -/

section Search

variable {suffixes : List String} {p q : Path} {paths files : List Path}

/-- Is a path too long to be looked up, or that of something below it? -/
def Overlong (d : Disk) (p : Path) : Prop :=
  p.hasNul = false ∧ (d.lookup p = .error .tooLong ∨
    ∃ top names item, d.lookup p = .ok top ∧ top.get? names = some item ∧
      (p.append names).isTooLong = true)

/-- Is there something at a path, and can all that is below be looked up? -/
def Searchable (d : Disk) (p : Path) : Prop := (∃ item, d.item? p = some item) ∧ ¬ d.Overlong p

/-- Is `q` a file for which `p` stands? A file stands for itself, and a folder for the files below
it with one of the suffixes, at any depth. -/
def StandsFor (d : Disk) (suffixes : List String) (p q : Path) : Prop :=
  match d.item? p with
  | some (.file ..) => q = p
  | some folder => ∃ names name octets, folder.get? names = some (.file name octets) ∧
      Path.suffix name ∈ suffixes ∧ q = p.append names
  | none => False

theorem item?_eq_some_iff {item : Item} :
    d.item? p = some item ↔ p.hasNul = false ∧ d.lookup p = .ok item := by
  unfold item?
  cases p.hasNul <;> cases d.lookup p <;> simp

theorem readFile_of_item? {name : String} {octets : List UInt8}
    (h : d.item? p = some (.file name octets)) : d.readFile p = .ok octets := by
  obtain ⟨hnul, hlookup⟩ := item?_eq_some_iff.1 h
  rw [readFile, hnul, hlookup]
  rfl

theorem isRegular_of_item? (hregular : d.isRegular = true) {item : Item}
    (h : d.item? p = some item) : item.isRegular = true := by
  obtain ⟨place, -, hplace⟩ := lookup_eq_ok_iff.1 (item?_eq_some_iff.1 h).2
  exact Item.isRegular_of_get? hregular hplace

theorem isTooLong_of_lookup {item : Item} (h : d.lookup p = .ok item) : p.isTooLong = false := by
  obtain ⟨place, hlocate, -⟩ := lookup_eq_ok_iff.1 h
  unfold locate at hlocate
  split at hlocate
  · cases hlocate
  · next hshort => simpa using hshort

theorem isTooLong_of_not_overlong (h : ¬ d.Overlong p) {top item : Item}
    (hp : d.item? p = some top) {names : List String} (hnames : top.get? names = some item) :
    (p.append names).isTooLong = false := by
  obtain ⟨hnul, hlookup⟩ := item?_eq_some_iff.1 hp
  rw [Bool.eq_false_iff]
  exact fun hlong => h ⟨hnul, Or.inr ⟨top, names, item, hlookup, hnames, hlong⟩⟩

/-- Below a path that can be searched, the names of an item make its path. -/
theorem item?_append (hregular : d.isRegular = true) (hp : ¬ d.Overlong p) {top item : Item}
    (htop : d.item? p = some top) {names : List String} (hnames : top.get? names = some item) :
    d.item? (p.append names) = some item := by
  obtain ⟨hnul, hlookup⟩ := item?_eq_some_iff.1 htop
  have hshort := isTooLong_of_not_overlong hp htop hnames
  have hlegal := Item.isName_of_get? (isRegular_of_item? hregular htop) hnames
  exact item?_eq_some_iff.2
    ⟨hasNul_append hnul hlegal, lookup_append hregular hlookup hnames hshort⟩

/-- What a path stands for are files. -/
theorem exists_file_of_standsFor (hregular : d.isRegular = true) (hp : ¬ d.Overlong p)
    (h : d.StandsFor suffixes p q) : ∃ name octets, d.item? q = some (.file name octets) := by
  unfold StandsFor at h
  split at h
  · next name octets hitem => exact ⟨name, octets, h ▸ hitem⟩
  · next folder _ hitem =>
      obtain ⟨names, name, octets, hget, -, rfl⟩ := h
      exact ⟨name, octets, item?_append hregular hp hitem hget⟩
  · exact h.elim

/-! ## The search at one path -/

theorem expand_of_overlong (hregular : d.isRegular = true) (h : d.Overlong p)
    (suffixes : List String) :
    ∃ names, d.expand suffixes p = .error (.access (.tooLong (p.append names).toString)) := by
  obtain ⟨hnul, hlookup | ⟨top, names, item, hlookup, hget, hlong⟩⟩ := h
  · refine ⟨[], ?_⟩
    rw [expand, hnul, hlookup, Path.append_nil]
    rfl
  · have hne : names ≠ [] := by
      rintro rfl
      rw [Path.append_nil, isTooLong_of_lookup hlookup] at hlong
      cases hlong
    cases top with
    | file own octets =>
        obtain ⟨first, rest, rfl⟩ := List.exists_cons_of_ne_nil hne
        simp [Item.get?] at hget
    | folder own items =>
        have hfolder := isRegular_of_item? hregular (item?_eq_some_iff.2 ⟨hnul, hlookup⟩)
        have hmem := (Item.mem_itemsBelow_iff hfolder).2 ⟨hne, item, hget⟩
        rw [expand, hnul, hlookup]
        simp only [filesBelow, Bool.false_eq_true, if_false]
        cases hfind : ((Item.folder own items).itemsBelow.map p.append).find? Path.isTooLong with
        | none =>
            have hshort := List.find?_eq_none.1 hfind _ (List.mem_map_of_mem hmem)
            exact absurd hlong hshort
        | some long =>
            obtain ⟨below, -, rfl⟩ := List.mem_map.1 (List.mem_of_find?_eq_some hfind)
            exact ⟨below, rfl⟩

theorem expand_of_missing (hmissing : d.item? p = none) (h : ¬ d.Overlong p) :
    d.expand suffixes p = .error (.noSuchPath p.toString) := by
  unfold expand
  split
  · rfl
  · next hnul =>
      have hclear : p.hasNul = false := by simpa using hnul
      cases hlookup : d.lookup p with
      | ok item =>
          rw [item?_eq_some_iff.2 ⟨hclear, hlookup⟩] at hmissing
          cases hmissing
      | error fault =>
          cases fault with
          | tooLong => exact absurd ⟨hclear, Or.inl hlookup⟩ h
          | missing => rfl
          | notFolder => rfl

theorem mem_filter_suffix_iff {own : String} {items : List Item}
    (hregular : (Item.folder own items).isRegular = true) :
    q ∈ ((Item.filesAmong items).map p.append).filter (fun q =>
        suffixes.contains (Path.suffix (q.names.getLastD ""))) ↔
      ∃ names name octets, (Item.folder own items).get? names = some (.file name octets) ∧
        Path.suffix name ∈ suffixes ∧ q = p.append names := by
  have hlast : ∀ {names : List String} {name : String} {octets : List UInt8},
      (Item.folder own items).get? names = some (.file name octets) →
      (p.append names).names.getLastD "" = name := by
    intro names name octets hget
    rcases List.eq_nil_or_concat' names with rfl | ⟨init, last, rfl⟩
    · rw [Item.get?_nil] at hget
      cases hget
    · have hname : name = last := Item.name_of_get? hget
      simp [Path.append, hname, List.getLastD_eq_getLast?, ← List.append_assoc]
  rw [List.mem_filter, List.mem_map]
  constructor
  · rintro ⟨⟨names, hnames, rfl⟩, hsuffix⟩
    obtain ⟨name, octets, hget⟩ := (Item.mem_filesAmong_iff hregular).1 hnames
    rw [hlast hget] at hsuffix
    exact ⟨names, name, octets, hget, by simpa using hsuffix, rfl⟩
  · rintro ⟨names, name, octets, hget, hsuffix, rfl⟩
    refine ⟨⟨names, (Item.mem_filesAmong_iff hregular).2 ⟨name, octets, hget⟩, rfl⟩, ?_⟩
    rw [hlast hget]
    simpa using hsuffix

/-- **A search finds exactly what a path stands for.** -/
theorem expand_of_searchable (hregular : d.isRegular = true) (h : d.Searchable p)
    (suffixes : List String) :
    ∃ files, d.expand suffixes p = .ok files ∧ ∀ q, q ∈ files ↔ d.StandsFor suffixes p q := by
  obtain ⟨⟨item, hitem⟩, hshort⟩ := h
  obtain ⟨hnul, hlookup⟩ := item?_eq_some_iff.1 hitem
  unfold StandsFor
  rw [expand, hnul, hlookup, hitem]
  cases item with
  | file name octets => exact ⟨[p], rfl, by simp⟩
  | folder own items =>
      have hfolder := isRegular_of_item? hregular hitem
      have hfind :
          ((Item.folder own items).itemsBelow.map p.append).find? Path.isTooLong = none := by
        rw [List.find?_eq_none]
        intro long hlong
        obtain ⟨names, hnames, rfl⟩ := List.mem_map.1 hlong
        obtain ⟨-, inner, hget⟩ := (Item.mem_itemsBelow_iff hfolder).1 hnames
        simpa using isTooLong_of_not_overlong hshort hitem hget
      simp only [filesBelow, hfind]
      exact ⟨_, rfl, fun q => mem_filter_suffix_iff hfolder⟩

theorem not_overlong_of_expand (hregular : d.isRegular = true)
    (h : ∀ path, d.expand suffixes p ≠ .error (.access (.tooLong path))) : ¬ d.Overlong p := by
  intro hlong
  obtain ⟨names, herror⟩ := expand_of_overlong hregular hlong suffixes
  exact h _ herror

theorem searchable_of_expand (hregular : d.isRegular = true)
    (h : d.expand suffixes p = .ok files) : d.Searchable p := by
  have hother : ∀ path, d.expand suffixes p ≠ .error (.access (.tooLong path)) := by
    intro path herror
    rw [h] at herror
    cases herror
  have hshort : ¬ d.Overlong p := not_overlong_of_expand hregular hother
  refine ⟨?_, hshort⟩
  cases hitem : d.item? p with
  | some item => exact ⟨item, rfl⟩
  | none =>
      rw [expand_of_missing hitem hshort] at h
      cases h

/-! ## What a search collects -/

/-- The first path that cannot be searched decides. -/
theorem collect_of_first (hregular : d.isRegular = true) {before : List Path}
    (hbefore : ∀ q ∈ before, d.Searchable q) {e : Failure} (hp : d.expand suffixes p = .error e)
    (after : List Path) : d.collect suffixes (before ++ p :: after) = .error e := by
  have hall : ∀ q ∈ before, ∃ files, d.expand suffixes q = .ok files := by
    intro q hq
    obtain ⟨files, hfiles, -⟩ := expand_of_searchable hregular (hbefore q hq) suffixes
    exact ⟨files, hfiles⟩
  rw [collect, mapM_append_eq_error hall hp]
  rfl

theorem searchable_of_collect (hregular : d.isRegular = true)
    (h : d.collect suffixes paths = .ok files) : ∀ p ∈ paths, d.Searchable p := by
  by_contra hnot
  obtain ⟨before, p, after, rfl, hbefore, hp⟩ := exists_first_of_not_forall hnot
  cases hexpand : d.expand suffixes p with
  | ok found => exact hp (searchable_of_expand hregular hexpand)
  | error e =>
      rw [collect_of_first hregular hbefore hexpand] at h
      cases h

theorem collect_of_searchable (hregular : d.isRegular = true)
    (h : ∀ p ∈ paths, d.Searchable p) (suffixes : List String) :
    ∃ found : List Path, (∀ q, q ∈ found ↔ ∃ p ∈ paths, d.StandsFor suffixes p q) ∧
      d.collect suffixes paths =
        if found.isEmpty then .error .nothingFound
        else .ok (found.eraseDups.mergeSort Path.le) := by
  have hexpand : ∀ p ∈ paths, ∃ files, d.expand suffixes p = .ok files ∧
      ∀ q, q ∈ files ↔ d.StandsFor suffixes p q :=
    fun p hp => expand_of_searchable hregular (h p hp) suffixes
  obtain ⟨groups, hgroups⟩ := exists_mapM_eq_ok fun p hp => (hexpand p hp).imp fun _ h => h.1
  refine ⟨groups.flatten, fun q => ?_, ?_⟩
  · rw [List.mem_flatten]
    constructor
    · rintro ⟨files, hfiles, hq⟩
      obtain ⟨p, hp, heq⟩ := (mem_iff_of_mapM_eq_ok hgroups).1 hfiles
      obtain ⟨found, hfound, hstands⟩ := hexpand p hp
      obtain rfl : files = found := Except.ok.inj (heq.symm.trans hfound)
      exact ⟨p, hp, (hstands q).1 hq⟩
    · rintro ⟨p, hp, hq⟩
      obtain ⟨found, hfound, hstands⟩ := hexpand p hp
      exact ⟨found, (mem_iff_of_mapM_eq_ok hgroups).2 ⟨p, hp, hfound⟩, (hstands q).2 hq⟩
  · rw [collect, hgroups]
    simp only [bind, Except.bind]
    split <;> rfl

/-- **What is collected are the files for which the paths stand.** -/
theorem mem_collect_iff (hregular : d.isRegular = true)
    (h : d.collect suffixes paths = .ok files) :
    ∀ q, q ∈ files ↔ ∃ p ∈ paths, d.StandsFor suffixes p q := by
  obtain ⟨found, hfound, hcollect⟩ :=
    collect_of_searchable hregular (searchable_of_collect hregular h) suffixes
  rw [hcollect] at h
  split at h
  · cases h
  · cases h
    intro q
    rw [List.mem_mergeSort, List.mem_eraseDups, hfound]

/-- A search finds nothing exactly if its paths stand for nothing. -/
theorem collect_eq_nothingFound_iff (hregular : d.isRegular = true)
    (h : ∀ p ∈ paths, d.Searchable p) (suffixes : List String) :
    d.collect suffixes paths = .error .nothingFound ↔
      ∀ p ∈ paths, ∀ q, ¬ d.StandsFor suffixes p q := by
  obtain ⟨found, hfound, hcollect⟩ := collect_of_searchable hregular h suffixes
  have hempty : found = [] ↔ ∀ p ∈ paths, ∀ q, ¬ d.StandsFor suffixes p q := by
    rw [List.eq_nil_iff_forall_not_mem]
    simp only [hfound]
    grind
  rw [hcollect, ← hempty]
  by_cases hnil : found = []
  · simp [hnil]
  · simp [hnil]

theorem exists_collect_of_standsFor (hregular : d.isRegular = true)
    (h : ∀ p ∈ paths, d.Searchable p) (hp : p ∈ paths) (hq : d.StandsFor suffixes p q) :
    ∃ files, d.collect suffixes paths = .ok files := by
  obtain ⟨found, hfound, hcollect⟩ := collect_of_searchable hregular h suffixes
  have hmem : q ∈ found := (hfound q).2 ⟨p, hp, hq⟩
  have hsome : found.isEmpty = false := by
    rw [List.isEmpty_eq_false_iff]
    exact List.ne_nil_of_mem hmem
  rw [hcollect, hsome]
  exact ⟨_, rfl⟩

/-- **All files that a search collects can be opened.** -/
theorem exists_readFile_of_mem_collect (hregular : d.isRegular = true)
    (h : d.collect suffixes paths = .ok files) (hq : q ∈ files) :
    ∃ octets, d.readFile q = .ok octets := by
  obtain ⟨p, hp, hstands⟩ := (mem_collect_iff hregular h q).1 hq
  obtain ⟨-, hshort⟩ := searchable_of_collect hregular h p hp
  obtain ⟨name, octets, hfile⟩ := exists_file_of_standsFor hregular hshort hstands
  exact ⟨octets, readFile_of_item? hfile⟩

/-! ## Why a search fails -/

theorem cause_of_expand_eq_error {e : Failure} (h : d.expand suffixes p = .error e) :
    (∃ path, e = .noSuchPath path) ∨ ∃ path, e = .access (.tooLong path) := by
  unfold expand at h
  split at h
  · cases h
    exact Or.inl ⟨_, rfl⟩
  · split at h
    · cases h
    · next folder _ _ =>
        unfold filesBelow at h
        split at h
        · cases h
          exact Or.inr ⟨_, rfl⟩
        · cases h
    · cases h
      exact Or.inr ⟨_, rfl⟩
    · cases h
      exact Or.inl ⟨_, rfl⟩

/-- **Why a search may fail**: a path does not exist, nothing is found, or a path is too long. -/
theorem cause_of_collect_eq_error {e : Failure} (h : d.collect suffixes paths = .error e) :
    (∃ path, e = .noSuchPath path) ∨ e = .nothingFound ∨ ∃ path, e = .access (.tooLong path) := by
  unfold collect at h
  cases hall : paths.mapM (d.expand suffixes) with
  | error cause =>
      rw [hall] at h
      cases h
      obtain ⟨p, -, hp⟩ := exists_of_mapM_eq_error hall
      rcases cause_of_expand_eq_error hp with hmissing | hlong
      · exact Or.inl hmissing
      · exact Or.inr (Or.inr hlong)
  | ok groups =>
      rw [hall] at h
      simp only [bind, Except.bind] at h
      split at h
      · cases h
        exact Or.inr (Or.inl rfl)
      · cases h

/-- A name that is too long cannot be looked up, whatever is on the disk. -/
theorem lookup_of_longName {name : String} (hlong : Path.nameLimit < name.utf8ByteSize)
    {own : String} {items : List Item}
    (hworking : d.root.get? d.working = some (.folder own items)) :
    d.lookup { root := "", names := [name] } = .error .tooLong := by
  have hstep : d.step d.working name = .error .tooLong := by
    unfold step
    rw [hworking]
    exact if_pos hlong
  have hlocate : d.locate { root := "", names := [name] } = .error .tooLong := by
    unfold locate
    split
    · rfl
    · show [name].foldlM d.step d.working = _
      rw [List.foldlM_cons, hstep]
      rfl
  rw [lookup, hlocate]
  rfl

theorem collect_of_longName {name : String} (htold : Path.isTold name = true)
    (hslash : '/' ∉ name.toList) (hnul : Char.ofNat 0 ∉ name.toList)
    (hlong : Path.nameLimit < name.utf8ByteSize) {own : String} {items : List Item}
    (hworking : d.root.get? d.working = some (.folder own items)) :
    d.collect suffixes [Path.ofString name] = .error (.access (.tooLong name)) := by
  have hexpand : d.expand suffixes { root := "", names := [name] } =
      .error (.access (.tooLong name)) := by
    have hclear : Path.hasNul { root := "", names := [name] } = false := by
      simpa [Path.hasNul] using hnul
    rw [expand, hclear, lookup_of_longName hlong hworking]
    show Except.error (Failure.access (.tooLong (Path.toString _))) = _
    rw [Path.toString_name]
  rw [collect, Path.ofString_name htold hslash, List.mapM_cons, hexpand]
  rfl

end Search

end Disk

end ScopeScore
