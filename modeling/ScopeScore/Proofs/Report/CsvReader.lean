import ScopeScore.Report.Csv

set_option autoImplicit false

/-! # Reading comma-separated records

A reader for records that end with a line feed, apart from the writer of reports. It goes through a
text one character at a time (`Progress.step`). A field in quotation marks may hold any character, a
quotation mark written twice; a field without them holds no quotation mark, comma or line feed. A
carriage return is a character like others.

**`read?_records`**: records as the writer has them are read back, whatever their fields are.
-/

namespace ScopeScore.Csv

/-- Where the reader is in a field. -/
inductive Mode where
  /-- At its beginning. -/
  | fresh
  /-- In a field without quotation marks. -/
  | bare
  /-- Between quotation marks. -/
  | quoted
  /-- Behind a quotation mark, which ends the field unless another one follows. -/
  | closing
deriving DecidableEq, Repr

/-- What has been read. -/
structure Progress where
  mode : Mode := .fresh
  /-- The field at hand. -/
  field : List Char := []
  /-- The fields before it, in the record at hand. -/
  fields : List (List Char) := []
  /-- The records before that. -/
  records : List (List (List Char)) := []
deriving DecidableEq, Repr

namespace Progress

def push (p : Progress) (mode : Mode) (c : Char) : Progress :=
  { p with mode, field := p.field ++ [c] }

def endField (p : Progress) : Progress :=
  { p with mode := .fresh, field := [], fields := p.fields ++ [p.field] }

def endRecord (p : Progress) : Progress :=
  { records := p.records ++ [p.fields ++ [p.field]] }

/-- Reads one character. -/
def step (p : Progress) (c : Char) : Option Progress :=
  match p.mode, c with
  | .quoted, '"' => some { p with mode := .closing }
  | .quoted, c => some (p.push .quoted c)
  | .closing, '"' => some (p.push .quoted '"')
  | .fresh, '"' => some { p with mode := .quoted }
  | .bare, '"' => none
  | _, ',' => some p.endField
  | _, '\n' => some p.endRecord
  | .closing, _ => none
  | _, c => some (p.push .bare c)

/-- The records read, if the last of them is ended. -/
def done? (p : Progress) : Option (List (List (List Char))) :=
  if p.mode = .fresh ∧ p.fields = [] then some p.records else none

end Progress

/-- The records of a text, each with its fields. -/
def read? (text : String) : Option (List (List String)) := do
  let p ← text.toList.foldlM Progress.step {}
  let records ← p.done?
  return records.map fun fields => fields.map String.ofList

/-! ## Fields are read back -/

namespace Progress

variable {p : Progress}

theorem step_bare {c : Char} (hp : p.mode = .fresh ∨ p.mode = .bare) (hc : isSpecial c = false) :
    p.step c = some (p.push .bare c) := by
  simp only [isSpecial, Bool.or_eq_false_iff, beq_eq_false_iff_ne] at hc
  unfold step
  split <;> simp_all

theorem foldlM_step_bare (cs : List Char) (hp : p.mode = .fresh ∨ p.mode = .bare)
    (hcs : ∀ c ∈ cs, isSpecial c = false) :
    ∃ mode, (mode = .fresh ∨ mode = .bare) ∧
      cs.foldlM step p = some { p with mode, field := p.field ++ cs } := by
  induction cs generalizing p with
  | nil => exact ⟨p.mode, hp, by simp⟩
  | cons c cs ih =>
      obtain ⟨mode, hmode, hrest⟩ :=
        ih (p := p.push .bare c) (Or.inr rfl) fun d hd => hcs d (List.mem_cons_of_mem c hd)
      refine ⟨mode, hmode, ?_⟩
      rw [List.foldlM_cons, step_bare hp (hcs c List.mem_cons_self)]
      simpa [push] using hrest

theorem foldlM_step_doubled (cs : List Char) (hp : p.mode = .quoted) :
    (doubled cs).foldlM step p = some { p with field := p.field ++ cs } := by
  induction cs generalizing p with
  | nil => simp [doubled]
  | cons c cs ih =>
      have hrest := ih (p := p.push .quoted c) rfl
      have hsplit : doubled (c :: cs) = (if c = '"' then ['"', '"'] else [c]) ++ doubled cs := rfl
      have hchar : (if c = '"' then ['"', '"'] else [c]).foldlM step p =
          some (p.push .quoted c) := by
        by_cases hc : c = '"'
        · subst hc
          simp [step, hp, push]
        · simp [step, hp, hc]
      rw [hsplit, List.foldlM_append, hchar]
      simpa [push, hp] using hrest

/-- A field at its beginning is read up to its end, where a comma or a line feed may come. -/
theorem foldlM_step_field (cs : List Char) (fields : List (List Char))
    (records : List (List (List Char))) :
    ∃ mode, mode ≠ .quoted ∧ (Csv.field cs).foldlM step { fields, records } =
      some { mode, field := cs, fields, records } := by
  unfold Csv.field
  by_cases hcs : cs.any isSpecial = true
  · refine ⟨.closing, by decide, ?_⟩
    have hopening : ({ fields, records } : Progress).step '"' =
        some { mode := .quoted, fields, records } := rfl
    have hinside := foldlM_step_doubled cs (p := { mode := .quoted, fields, records }) rfl
    rw [if_pos hcs, List.cons_append, List.foldlM_cons, hopening]
    show (doubled cs ++ ['"']).foldlM step _ = _
    rw [List.foldlM_append, hinside]
    rfl
  · obtain ⟨mode, hmode, hread⟩ := foldlM_step_bare cs (p := { fields, records }) (Or.inl rfl)
      (by simpa using hcs)
    refine ⟨mode, ?_, ?_⟩
    · rcases hmode with rfl | rfl <;> decide
    · rw [if_neg hcs, hread]
      rfl

theorem step_comma (hp : p.mode ≠ .quoted) : p.step ',' = some p.endField := by
  unfold step
  split <;> simp_all

theorem step_lineFeed (hp : p.mode ≠ .quoted) : p.step '\n' = some p.endRecord := by
  unfold step
  split <;> simp_all

/-! ## Records are read back -/

/-- The fields from `before` on, with commas between them and a line feed at the end. -/
theorem foldlM_step_record {fields : List (List Char)} (hne : fields ≠ [])
    (before : List (List Char)) (records : List (List (List Char))) :
    (record fields).foldlM step { fields := before, records } =
      some { records := records ++ [before ++ fields] } := by
  unfold record
  induction fields generalizing before with
  | nil => exact absurd rfl hne
  | cons f fields ih =>
      obtain ⟨mode, hmode, hfield⟩ := foldlM_step_field f before records
      let p : Progress := { mode, field := f, fields := before, records }
      cases fields with
      | nil =>
          have hend : p.step '\n' = some p.endRecord := step_lineFeed hmode
          rw [List.map_singleton, List.intercalate_singleton, List.foldlM_append, hfield]
          show ['\n'].foldlM step p = _
          rw [List.foldlM_cons, hend]
          rfl
      | cons g fields =>
          have hend : p.step ',' = some p.endField := step_comma hmode
          have hrest := ih (List.cons_ne_nil g fields) (before ++ [f])
          rw [List.map_cons, List.map_cons, List.intercalate_cons_cons, List.append_assoc,
            List.append_assoc, List.foldlM_append, hfield]
          show (',' :: (List.intercalate [','] ((g :: fields).map Csv.field) ++ ['\n'])).foldlM
            step p = _
          rw [List.foldlM_cons, hend]
          show List.foldlM step { fields := before ++ [f], records } _ = _
          rw [hrest, List.append_assoc, List.singleton_append]

theorem foldlM_step_records {records : List (List (List Char))}
    (hne : ∀ fields ∈ records, fields ≠ []) (before : List (List (List Char))) :
    (records.flatMap record).foldlM step { records := before } =
      some { records := before ++ records } := by
  induction records generalizing before with
  | nil => simp
  | cons fields records ih =>
      have hrest := ih (fun r hr => hne r (List.mem_cons_of_mem fields hr)) (before ++ [fields])
      rw [List.flatMap_cons, List.foldlM_append,
        foldlM_step_record (hne fields List.mem_cons_self) [] before]
      show List.foldlM step { records := before ++ [fields] } _ = _
      rw [hrest, List.append_assoc, List.singleton_append]

end Progress

/-- **Records are read back.** -/
theorem read?_records {records : List (List (List Char))} (hne : ∀ fields ∈ records, fields ≠ []) :
    read? (String.ofList (records.flatMap record)) =
      some (records.map fun fields => fields.map String.ofList) := by
  have hread := Progress.foldlM_step_records hne []
  rw [List.nil_append] at hread
  simp [read?, hread, Progress.done?]

end ScopeScore.Csv
