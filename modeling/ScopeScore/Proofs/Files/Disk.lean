import ScopeScore.Files.Disk
import Mathlib.Data.List.Nodup

set_option autoImplicit false

/-! # Disks as they are

Not every tree of items is one that a disk can hold: a name may be there twice, and a name may hold
a slash. `Disk.isRegular` leaves these out. On a regular disk the names that a search gives are
those that lead somewhere, and they make paths.

* `Item.get?_append`: names lead further from where the first of them lead.
* `Item.mem_filesAmong_iff`, `Item.mem_itemsBelow_iff`: a search finds all to which names lead.
* **`Disk.lookup_append`**: an item below a folder is what its path leads to.
-/

namespace ScopeScore

/-! ## Regular items -/

namespace Item

/-- Can an item have this name? -/
def isName (name : String) : Bool :=
  name != "" && name != "." && name != ".." && !name.toList.contains '/' &&
    !name.toList.contains (Char.ofNat 0) && name.utf8ByteSize ≤ Path.nameLimit

mutual

/-- Has every folder of an item names that can be names, each once? -/
def isRegular : Item → Bool
  | .file .. => true
  | .folder _ items => (items.map Item.name).Nodup && areRegular items

/-- Are items regular, and are their names such? -/
def areRegular : List Item → Bool
  | [] => true
  | item :: items => isName item.name && item.isRegular && areRegular items

end

theorem areRegular_iff {items : List Item} :
    areRegular items = true ↔ ∀ item ∈ items, isName item.name = true ∧ item.isRegular = true := by
  induction items with
  | nil => simp [areRegular]
  | cons item items ih => simp [areRegular, ih]

theorem isRegular_folder_iff {own : String} {items : List Item} :
    (folder own items).isRegular = true ↔ (items.map Item.name).Nodup ∧
      ∀ item ∈ items, isName item.name = true ∧ item.isRegular = true := by
  simp [isRegular, areRegular_iff]

theorem isName_iff {name : String} : isName name = true ↔ name ≠ "" ∧ name ≠ "." ∧ name ≠ ".." ∧
    '/' ∉ name.toList ∧ Char.ofNat 0 ∉ name.toList ∧ name.utf8ByteSize ≤ Path.nameLimit := by
  simp [isName, and_assoc]

/-! ## Where names lead -/

theorem get?_nil (item : Item) : item.get? [] = some item := by
  unfold get?
  rfl

theorem get?_folder_cons (own : String) (items : List Item) (name : String) (names : List String) :
    (folder own items).get? (name :: names) = (find? items name).bind (·.get? names) := by
  rw [get?]

/-- Names lead further from where the first of them lead. -/
theorem get?_append (item : Item) (xs ys : List String) :
    item.get? (xs ++ ys) = (item.get? xs).bind (·.get? ys) := by
  induction xs generalizing item with
  | nil => rw [List.nil_append, get?_nil, Option.bind_some]
  | cons x xs ih =>
      cases item with
      | file own octets => simp [get?]
      | folder own items =>
          rw [List.cons_append, get?_folder_cons, get?_folder_cons]
          cases find? items x with
          | none => rfl
          | some inner => exact ih inner

/-- An item is found under its name, if no other has it. -/
theorem find?_of_mem {items : List Item} (hnodup : (items.map Item.name).Nodup) {item : Item}
    (h : item ∈ items) : find? items item.name = some item := by
  induction items with
  | nil => simp at h
  | cons first items ih =>
      obtain ⟨hfirst, hrest⟩ := List.nodup_cons.1 hnodup
      unfold find? at ih ⊢
      rcases List.mem_cons.1 h with rfl | hmem
      · simp
      · have hne : first.name ≠ item.name := fun heq =>
          hfirst (heq ▸ List.mem_map_of_mem hmem)
        rw [List.find?_cons_of_neg (by simpa using hne)]
        exact ih hrest hmem

theorem isRegular_of_get? {item inner : Item} (hitem : item.isRegular = true)
    {names : List String} (h : item.get? names = some inner) : inner.isRegular = true := by
  induction names generalizing item with
  | nil =>
      rw [get?_nil, Option.some.injEq] at h
      exact h ▸ hitem
  | cons name names ih =>
      cases item with
      | file own octets => simp [get?] at h
      | folder own items =>
          rw [get?_folder_cons] at h
          obtain ⟨next, hnext, hinner⟩ := Option.bind_eq_some_iff.1 h
          have hmem : next ∈ items := List.mem_of_find?_eq_some hnext
          exact ih ((isRegular_folder_iff.1 hitem).2 next hmem).2 hinner

/-- In a regular folder, a name leads to the item of that name. -/
theorem get?_cons_eq_some_iff {own : String} {items : List Item}
    (hregular : (folder own items).isRegular = true) {name : String} {names : List String}
    {inner : Item} : (folder own items).get? (name :: names) = some inner ↔
      ∃ item ∈ items, item.name = name ∧ item.get? names = some inner := by
  rw [get?_folder_cons, Option.bind_eq_some_iff]
  constructor
  · rintro ⟨item, hfind, hinner⟩
    have hname : item.name = name := by simpa using List.find?_some hfind
    exact ⟨item, List.mem_of_find?_eq_some hfind, hname, hinner⟩
  · rintro ⟨item, hmem, rfl, hinner⟩
    exact ⟨item, find?_of_mem (isRegular_folder_iff.1 hregular).1 hmem, hinner⟩

/-- The names on the way to an item are names. -/
theorem isName_of_get? {item inner : Item} (hregular : item.isRegular = true)
    {names : List String} (h : item.get? names = some inner) :
    ∀ name ∈ names, isName name = true := by
  induction names generalizing item with
  | nil => simp
  | cons name names ih =>
      cases item with
      | file own octets => simp [get?] at h
      | folder own items =>
          obtain ⟨next, hnext, rfl, hinner⟩ := (get?_cons_eq_some_iff hregular).1 h
          obtain ⟨hname, hbelow⟩ := (isRegular_folder_iff.1 hregular).2 next hnext
          exact List.forall_mem_cons.2 ⟨hname, ih hbelow hinner⟩

/-- The last name on the way to an item is its own. -/
theorem name_of_get? {item inner : Item} {names : List String} {last : String}
    (h : item.get? (names ++ [last]) = some inner) : inner.name = last := by
  rw [get?_append] at h
  obtain ⟨around, -, hlast⟩ := Option.bind_eq_some_iff.1 h
  cases around with
  | file own octets => simp [get?] at hlast
  | folder own items =>
      rw [get?_folder_cons] at hlast
      obtain ⟨found, hfind, heq⟩ := Option.bind_eq_some_iff.1 hlast
      rw [get?_nil, Option.some.injEq] at heq
      rw [← heq]
      simpa using List.find?_some hfind

/-! ## What is below a folder -/

/-- The files among some items are those that are files, and those below the folders. -/
theorem mem_filesAmong {items : List Item} {names : List String} :
    names ∈ filesAmong items ↔
      (∃ name octets, file name octets ∈ items ∧ names = [name]) ∨
      ∃ name inner rest, folder name inner ∈ items ∧ rest ∈ filesAmong inner ∧
        names = name :: rest := by
  induction items with
  | nil => simp [filesAmong]
  | cons item items ih =>
      cases item with
      | file name octets =>
          simp only [filesAmong, List.mem_cons, ih]
          grind
      | folder name inner =>
          simp only [filesAmong, List.mem_append, List.mem_map, List.mem_cons, ih]
          grind

theorem nil_not_mem_filesAmong (items : List Item) : [] ∉ filesAmong items := by
  intro h
  rcases mem_filesAmong.1 h with ⟨_, _, _, heq⟩ | ⟨_, _, _, _, _, heq⟩ <;> cases heq

/-- **A search finds the files to which names lead**, and no others. -/
theorem mem_filesAmong_iff {own : String} {items : List Item}
    (hregular : (folder own items).isRegular = true) {names : List String} :
    names ∈ filesAmong items ↔
      ∃ name octets, (folder own items).get? names = some (file name octets) := by
  induction names generalizing own items with
  | nil => simp [nil_not_mem_filesAmong, get?_nil]
  | cons name names ih =>
      have hbelow := (isRegular_folder_iff.1 hregular).2
      simp only [get?_cons_eq_some_iff hregular]
      rw [mem_filesAmong]
      constructor
      · rintro (⟨last, octets, hfile, heq⟩ | ⟨next, inner, rest, hnext, hrest, heq⟩)
        · obtain ⟨rfl, rfl⟩ := List.cons.inj heq
          exact ⟨name, octets, _, hfile, rfl, get?_nil _⟩
        · obtain ⟨rfl, rfl⟩ := List.cons.inj heq
          obtain ⟨last, octets, hget⟩ := (ih (hbelow _ hnext).2).1 hrest
          exact ⟨last, octets, _, hnext, rfl, hget⟩
      · rintro ⟨last, octets, item, hitem, rfl, hget⟩
        cases item with
        | folder next inner =>
            have hrest := (ih (hbelow _ hitem).2).2 ⟨last, octets, hget⟩
            exact Or.inr ⟨next, inner, names, hitem, hrest, rfl⟩
        | file next contents =>
            cases names with
            | nil => exact Or.inl ⟨next, contents, hitem, rfl⟩
            | cons further names => simp [get?] at hget

theorem mem_itemsInside {items : List Item} {names : List String} :
    names ∈ itemsInside items ↔ ∃ name inner rest, folder name inner ∈ items ∧
      rest ∈ (folder name inner).itemsBelow ∧ names = name :: rest := by
  induction items with
  | nil => simp [itemsInside]
  | cons item items ih =>
      cases item with
      | file name octets =>
          simp only [itemsInside, List.mem_cons, ih]
          grind
      | folder name inner =>
          have hinside : itemsInside (folder name inner :: items) =
              (folder name inner).itemsBelow.map (name :: ·) ++ itemsInside items := by
            rw [itemsInside, itemsBelow]
          simp only [hinside, List.mem_append, List.mem_map, List.mem_cons, ih]
          grind

/-- Everything below a folder is looked up: all to which names lead. -/
theorem mem_itemsBelow_iff {own : String} {items : List Item}
    (hregular : (folder own items).isRegular = true) {names : List String} :
    names ∈ (folder own items).itemsBelow ↔
      names ≠ [] ∧ ∃ item, (folder own items).get? names = some item := by
  induction names generalizing own items with
  | nil =>
      refine iff_of_false (fun h => ?_) fun h => h.1 rfl
      rw [itemsBelow, List.mem_append, List.mem_map, mem_itemsInside] at h
      rcases h with ⟨_, _, heq⟩ | ⟨_, _, _, _, _, heq⟩ <;> cases heq
  | cons name names ih =>
      have hbelow := (isRegular_folder_iff.1 hregular).2
      simp only [get?_cons_eq_some_iff hregular]
      rw [itemsBelow, List.mem_append, List.mem_map, mem_itemsInside]
      constructor
      · rintro (⟨item, hitem, heq⟩ | ⟨next, inner, rest, hnext, hrest, heq⟩)
        · obtain ⟨rfl, rfl⟩ := List.cons.inj heq
          exact ⟨List.cons_ne_nil _ _, item, item, hitem, rfl, get?_nil item⟩
        · obtain ⟨rfl, rfl⟩ := List.cons.inj heq
          obtain ⟨-, item, hget⟩ := (ih (hbelow _ hnext).2).1 hrest
          exact ⟨List.cons_ne_nil _ _, item, _, hnext, rfl, hget⟩
      · rintro ⟨-, inner, item, hitem, rfl, hget⟩
        by_cases hnil : names = []
        · exact Or.inl ⟨item, hitem, by rw [hnil]⟩
        · cases item with
          | folder next items =>
              have hrest := (ih (hbelow _ hitem).2).2 ⟨hnil, inner, hget⟩
              exact Or.inr ⟨next, items, names, hitem, hrest, rfl⟩
          | file next contents =>
              obtain ⟨further, names, rfl⟩ := List.exists_cons_of_ne_nil hnil
              simp [get?] at hget

end Item

/-! ## Files below a folder -/

namespace Disk

variable {d : Disk}

/-- Can a disk be like this? -/
def isRegular (d : Disk) : Bool := d.root.isRegular

/-- From a folder, the name of an item leads one step down. -/
theorem step_of_folder {place : List String} {own : String} {items : List Item}
    (hplace : d.root.get? place = some (.folder own items)) {name : String}
    (hname : Item.isName name = true) : d.step place name = .ok (place ++ [name]) := by
  obtain ⟨-, -, hdots, -, -, hlength⟩ := Item.isName_iff.1 hname
  have hshort : ¬ Path.nameLimit < name.utf8ByteSize := by omega
  unfold step
  rw [hplace]
  simp [hshort, hdots]

/-- The names of an item below a folder lead from the folder to the item. -/
theorem foldlM_step_of_get? (hregular : d.isRegular = true) {names : List String} {item : Item} :
    ∀ {place : List String} {top : Item}, d.root.get? place = some top →
      top.get? names = some item → names.foldlM d.step place = .ok (place ++ names) := by
  induction names with
  | nil =>
      intro place top _ _
      rw [List.append_nil]
      rfl
  | cons name names ih =>
      intro place top hplace hitem
      cases top with
      | file own octets => simp [Item.get?] at hitem
      | folder own items =>
          have hfolder := Item.isRegular_of_get? hregular hplace
          have hname := Item.isName_of_get? hfolder hitem name List.mem_cons_self
          obtain ⟨next, hnext, rfl, hinner⟩ := (Item.get?_cons_eq_some_iff hfolder).1 hitem
          have hdown : d.root.get? (place ++ [next.name]) = some next := by
            rw [Item.get?_append, hplace, Option.bind_some]
            exact (Item.get?_cons_eq_some_iff hfolder).2 ⟨next, hnext, rfl, Item.get?_nil next⟩
          have htail := ih hdown hinner
          rw [List.append_assoc, List.singleton_append] at htail
          rw [List.foldlM_cons, step_of_folder hplace hname]
          exact htail

theorem lookup_eq_ok_iff {p : Path} {item : Item} :
    d.lookup p = .ok item ↔
      ∃ place, d.locate p = .ok place ∧ d.root.get? place = some item := by
  unfold lookup
  cases d.locate p with
  | error fault =>
      constructor
      · intro h
        cases h
      · rintro ⟨place, h, -⟩
        cases h
  | ok place =>
      simp only [bind, Except.bind, Except.ok.injEq]
      cases hget : d.root.get? place with
      | none => simp [throw, throwThe, MonadExceptOf.throw, hget]
      | some found => simp [pure, Except.pure, hget]

/-- An item below a folder is what its path leads to. -/
theorem lookup_append (hregular : d.isRegular = true) {p : Path} {top item : Item}
    (hp : d.lookup p = .ok top) {names : List String} (hnames : top.get? names = some item)
    (hshort : (p.append names).isTooLong = false) : d.lookup (p.append names) = .ok item := by
  obtain ⟨place, hlocate, hplace⟩ := lookup_eq_ok_iff.1 hp
  have hfirst : p.names.foldlM d.step (d.start p) = .ok place := by
    unfold locate at hlocate
    split at hlocate
    · cases hlocate
    · exact hlocate
  have hlonger : d.locate (p.append names) = .ok (place ++ names) := by
    rw [locate, hshort]
    show (p.names ++ names).foldlM d.step (d.start p) = _
    rw [List.foldlM_append, hfirst]
    exact foldlM_step_of_get? hregular hplace hnames
  have hitem : d.root.get? (place ++ names) = some item := by
    rw [Item.get?_append, hplace]
    exact hnames
  exact lookup_eq_ok_iff.2 ⟨place ++ names, hlonger, hitem⟩

theorem hasNul_append {p : Path} (hp : p.hasNul = false) {names : List String}
    (hnames : ∀ name ∈ names, Item.isName name = true) : (p.append names).hasNul = false := by
  unfold Path.hasNul Path.append at *
  rw [List.any_append, hp, Bool.false_or, List.any_eq_false]
  intro name hname
  obtain ⟨-, -, -, -, hnul, -⟩ := Item.isName_iff.1 (hnames name hname)
  simpa using hnul

end Disk

end ScopeScore
