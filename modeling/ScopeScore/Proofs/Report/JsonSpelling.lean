import ScopeScore.Proofs.Report.JsonReader
import Mathlib.Data.List.Basic

set_option autoImplicit false

/-! # How values are spelled in JSON

Texts and their tokens are put together piece by piece (`Lexes`), and so are tokens and their values
(`Reads`). A piece of text has its tokens whatever comes behind it, as long as that does not continue
a number (`Stops`).

* **`lexes_string`**, **`lexes_toString`**: strings and integers as the writer has them are read back.
* `lexes_intercalate`: pieces with commas between them.
* **`reads_array`**, **`reads_object`**: values with commas between them are the items of an array,
  members are an object.
-/

namespace ScopeScore.Json

open Text (hexDigits)

/-! ## Strings are read back -/

theorem hexValue?_digitChar : ∀ d < 16, hexValue? (Nat.digitChar d) = some d := by decide

theorem hexNumber?_hexDigits (w n : Nat) :
    hexNumber? (hexDigits w n) = some (n % Nat.pow 16 w) := by
  induction w generalizing n with
  | zero => simp [hexDigits, hexNumber?, Nat.mod_one]
  | succ w ih =>
      have hdigit := hexValue?_digitChar (n % 16) (Nat.mod_lt n (by decide))
      have hpow : Nat.pow 16 (w + 1) = 16 * Nat.pow 16 w := Nat.mul_comm _ _
      have hsplit : n % Nat.pow 16 (w + 1) = 16 * (n / 16 % Nat.pow 16 w) + n % 16 := by
        rw [hpow, Nat.mod_mul]
        omega
      unfold hexNumber? at ih ⊢
      rw [hexDigits, List.foldlM_append, ih, hsplit]
      simp [hdigit]

theorem readUnits?_unitEscape_append {u : Nat} (hu : u < 0x10000) (rest : List Char) :
    readUnits? (unitEscape u ++ rest) = (readUnits? rest).map (Prod.map (u :: ·) id) := by
  have hfour : u < Nat.pow 16 4 := hu
  have hnumber := hexNumber?_hexDigits 4 u
  rw [Nat.mod_eq_of_lt hfour] at hnumber
  simp only [hexDigits, List.nil_append, List.cons_append] at hnumber
  simp [unitEscape, hexDigits, readUnits?, hnumber]

theorem letterMeaning?_of_letterEscape? {c letter : Char} (h : letterEscape? c = some letter) :
    letterMeaning? letter = some c ∧ letter ≠ 'u' := by
  -- eight characters have a letter
  have hlisted : c ∈ ['"', '\\', '/', '\n', '\r', '\t', Char.ofNat 8, Char.ofNat 12] := by
    refine Decidable.byContradiction fun hnone => ?_
    simp only [List.mem_cons, List.not_mem_nil, or_false, not_or] at hnone
    have h8 : c.toNat ≠ 8 := fun h8 => hnone.2.2.2.2.2.2.1 (by rw [← h8, Char.ofNat_toNat])
    have h12 : c.toNat ≠ 12 := fun h12 => hnone.2.2.2.2.2.2.2 (by rw [← h12, Char.ofNat_toNat])
    simp [letterEscape?, hnone, h8, h12] at h
  have hall : (['"', '\\', '/', '\n', '\r', '\t', Char.ofNat 8, Char.ofNat 12].all fun c =>
      (letterEscape? c).all fun letter => letterMeaning? letter == some c && letter != 'u') =
      true := by decide
  have hc := List.all_eq_true.1 hall c hlisted
  rw [h] at hc
  simpa using hc

theorem units_lt (c : Char) : ∀ u ∈ units c, u < 0x10000 := by
  have hvalid : c.toNat < 0xD800 ∨ 0xDFFF < c.toNat ∧ c.toNat < 0x110000 := c.valid
  intro u hu
  simp only [units] at hu
  split at hu
  · simp only [List.mem_singleton] at hu
    omega
  · simp only [List.mem_cons, List.not_mem_nil, or_false] at hu
    omega

theorem readUnits?_flatMap_unitEscape (us : List Nat) (hus : ∀ u ∈ us, u < 0x10000)
    (rest : List Char) :
    readUnits? (us.flatMap unitEscape ++ rest) =
      (readUnits? rest).map (Prod.map (us ++ ·) id) := by
  induction us with
  | nil =>
      show readUnits? rest = (readUnits? rest).map (Prod.map id id)
      rw [Prod.map_id, Option.map_id]
      rfl
  | cons u us ih =>
      rw [List.flatMap_cons, List.append_assoc,
        readUnits?_unitEscape_append (hus u List.mem_cons_self),
        ih fun v hv => hus v (List.mem_cons_of_mem u hv), Option.map_map]
      rfl

/-- One character as the writer has it. -/
theorem readUnits?_escape_append (c : Char) (rest : List Char) :
    readUnits? (escape c ++ rest) = (readUnits? rest).map (Prod.map (units c ++ ·) id) := by
  unfold escape
  split
  · next letter hletter =>
      obtain ⟨hmeaning, hu⟩ := letterMeaning?_of_letterEscape? hletter
      simp [readUnits?, hmeaning, hu]
  · next hletter =>
      split
      · exact readUnits?_flatMap_unitEscape (units c) (units_lt c) rest
      · next hplain =>
          have hquote : c ≠ '"' := by
            rintro rfl
            simp [letterEscape?] at hletter
          have hbackslash : c ≠ '\\' := by
            rintro rfl
            simp [letterEscape?] at hletter
          simp only [Bool.or_eq_true, decide_eq_true_eq, not_or] at hplain
          simp [readUnits?, hbackslash, hplain.1]

theorem readUnits?_flatMap_escape (cs rest : List Char) :
    readUnits? (cs.flatMap escape ++ '"' :: rest) = some (cs.flatMap units, rest) := by
  induction cs with
  | nil => simp [readUnits?]
  | cons c cs ih =>
      rw [List.flatMap_cons, List.append_assoc, readUnits?_escape_append, ih]
      rfl

theorem ofUnits?_units_append (c : Char) (us : List Nat) :
    ofUnits? (units c ++ us) = (ofUnits? us).map (c :: ·) := by
  have hvalid : c.toNat < 0xD800 ∨ 0xDFFF < c.toNat ∧ c.toNat < 0x110000 := c.valid
  simp only [units]
  by_cases hc : c.toNat < 0x10000
  · rw [if_pos hc, List.singleton_append, ofUnits?.eq_def]
    simp only
    rw [if_pos (by omega), Char.ofNat_toNat]
  · -- a pair
    have hwhole : 0x10000 + (0xD800 + (c.toNat - 0x10000) / 0x400 - 0xD800) * 0x400 +
        (0xDC00 + (c.toNat - 0x10000) % 0x400 - 0xDC00) = c.toNat := by omega
    rw [if_neg hc, List.cons_append, List.singleton_append, ofUnits?.eq_def]
    simp only
    rw [if_neg (by omega), if_pos (by omega), hwhole, Char.ofNat_toNat]

theorem ofUnits?_flatMap_units (cs : List Char) : ofUnits? (cs.flatMap units) = some cs := by
  induction cs with
  | nil => rfl
  | cons c cs ih =>
      rw [List.flatMap_cons, ofUnits?_units_append, ih]
      rfl

theorem readString?_escaped (s : String) (rest : List Char) :
    readString? (s.toList.flatMap escape ++ '"' :: rest) = some (s, rest) := by
  simp [readString?, readUnits?_flatMap_escape, ofUnits?_flatMap_units]

/-! ## Tokens are read back -/

/-- Can this character continue a number? -/
def continuesNumber (c : Char) : Bool := c.isDigit || c == '.' || c == 'e' || c == 'E'

/-- Does a number end in front of this text? -/
def Stops (cs : List Char) : Prop := ∀ c ∈ cs.head?, continuesNumber c = false

/-- A text has these tokens, whatever comes behind it. -/
def Lexes (text : List Char) (ts : List Token) : Prop :=
  ∀ rest, Stops rest → tokens? (text ++ rest) = (tokens? rest).map (ts ++ ·)

section Lexing

variable {a b : List Char} {s t : List Token}

theorem stops_cons {c : Char} (hc : continuesNumber c = false) (cs : List Char) :
    Stops (c :: cs) := by
  rintro d ⟨⟩
  exact hc

theorem Stops.append (ha : Stops a) (hb : Stops b) : Stops (a ++ b) := by
  cases a with
  | nil => exact hb
  | cons c cs => exact ha

theorem Lexes.append (ha : Lexes a s) (hb : Lexes b t) (stops : Stops b) :
    Lexes (a ++ b) (s ++ t) := by
  intro rest hrest
  rw [List.append_assoc, ha _ (stops.append hrest), hb rest hrest, Option.map_map]
  congr 1
  funext ts
  exact (List.append_assoc s t ts).symm

theorem tokens?_blanks_append (hb : b.all isBlank = true) (rest : List Char) :
    tokens? (b ++ rest) = tokens? rest := by
  induction b with
  | nil => rfl
  | cons c b ih =>
      obtain ⟨hc, hb⟩ := Bool.and_eq_true_iff.1 hb
      rw [List.cons_append, tokens?, if_pos hc]
      exact ih hb

theorem Lexes.behind_blanks (ha : Lexes a s) (hb : b.all isBlank = true) :
    Lexes (b ++ a) s := by
  intro rest hrest
  rw [List.append_assoc, tokens?_blanks_append hb, ha rest hrest]

theorem tokens?_punctuation {c : Char} {p : Token} (hc : punctuation? c = some p)
    (hblank : isBlank c = false) (rest : List Char) :
    tokens? (c :: rest) = (tokens? rest).map (p :: ·) := by
  rw [tokens?, hblank, if_neg Bool.false_ne_true, hc]

/-- A mark of punctuation with blanks behind it. -/
theorem lexes_punctuation {c : Char} {p : Token} (hc : punctuation? c = some p)
    (hblank : isBlank c = false) (hb : b.all isBlank = true) : Lexes (c :: b) [p] := by
  intro rest _
  rw [List.cons_append, tokens?_punctuation hc hblank, tokens?_blanks_append hb]
  rfl

theorem tokens?_of_readPlain? {c : Char} {cs rest : List Char} {v : Value}
    (hplain : readPlain? (c :: cs) = some (v, rest)) (hblank : isBlank c = false)
    (hmark : punctuation? c = none) (hlength : rest.length ≤ cs.length) :
    tokens? (c :: cs) = (tokens? rest).map (.plain v :: ·) := by
  rw [tokens?, hblank, if_neg Bool.false_ne_true, hmark]
  simp only [hplain, Option.bind_eq_bind, Option.bind_some, dif_pos hlength]

/-- **A string is one token**, and its value is the text that was written. -/
theorem lexes_string (text : String) : Lexes (string text) [.plain (.string text)] := by
  intro rest _
  have hread : readPlain? ('"' :: (text.toList.flatMap escape ++ '"' :: rest)) =
      some (.string text, rest) := by
    rw [readPlain?, readString?_escaped]
    rfl
  have hlength : rest.length ≤ (text.toList.flatMap escape ++ '"' :: rest).length := by
    rw [List.length_append, List.length_cons]
    omega
  have htokens := tokens?_of_readPlain? hread rfl rfl hlength
  rw [string, List.append_assoc]
  exact htokens

end Lexing

/-! ### Integers -/

theorem readNumber?_toString_append (n : Int) {rest : List Char} (hrest : Stops rest) :
    readNumber? ((toString n).toList ++ rest) = some (.number n 0, rest) := by
  have hdigit : ∀ c ∈ rest.head?, c.isDigit = false := fun c hc => by
    have hstop := hrest c hc
    simp only [continuesNumber, Bool.or_eq_false_iff] at hstop
    exact hstop.1.1.1
  have hfraction : readFraction? rest = some ([], rest) := by
    unfold readFraction?
    split
    · next cs => exact absurd (hrest '.' rfl) (by decide)
    · rfl
  have hexponent : readExponent? rest = some (0, rest) := by
    cases rest with
    | nil => rfl
    | cons c cs =>
        have hstop := hrest c rfl
        simp only [continuesNumber, Bool.or_eq_false_iff, beq_eq_false_iff_ne] at hstop
        rw [readExponent?, if_neg (by simp [hstop])]
  simp only [readNumber?, Decimal.splitMinus_toString_append,
    Decimal.whole?_toDigits_append rest hdigit, hfraction, hexponent, Option.bind_eq_bind,
    Option.bind_some, List.append_nil, Decimal.signed_toDigits]
  rfl

/-- The characters that begin blanks and all tokens but numbers. -/
def otherStarts : List Char :=
  [' ', '\t', '\n', '\r', '[', ']', '\x7b', '\x7d', ',', ':', '"', 'n', 't', 'f']

theorem ne_of_mem_otherStarts {c d : Char} (hc : c = '-' ∨ c.isDigit = true)
    (hd : d ∈ otherStarts) : c ≠ d := by
  have hnone : (otherStarts.all fun d => !(d == '-' || d.isDigit)) = true := by decide
  rintro rfl
  have hother := List.all_eq_true.1 hnone c hd
  rcases hc with rfl | hc
  · exact absurd hother (by decide)
  · simp [hc] at hother

theorem exists_toList_toString_eq_cons (n : Int) :
    ∃ c cs, (toString n).toList = c :: cs ∧ (c = '-' ∨ c.isDigit = true) := by
  obtain ⟨d, ds, hds, hd⟩ := Decimal.exists_toDigits_eq_cons n.natAbs
  rw [Decimal.toList_toString, Decimal.minus]
  by_cases hn : n < 0
  · rw [if_pos hn]
    exact ⟨'-', Nat.toDigits 10 n.natAbs, rfl, Or.inl rfl⟩
  · rw [if_neg hn, hds]
    exact ⟨d, ds, rfl, Or.inr hd⟩

/-- **An integer is one token.** -/
theorem lexes_toString (n : Int) : Lexes (toString n).toList [.plain (.number n 0)] := by
  intro rest hrest
  have hnumber := readNumber?_toString_append n hrest
  obtain ⟨c, cs, hcs, hc⟩ := exists_toList_toString_eq_cons n
  have hother : ∀ d ∈ otherStarts, c ≠ d := fun d hd => ne_of_mem_otherStarts hc hd
  simp only [otherStarts, List.forall_mem_cons, List.not_mem_nil, false_implies, implies_true]
    at hother
  -- nothing else begins like a number, so it is the number that is read
  have hword : readWord? (c :: (cs ++ rest)) = none := by
    simp [readWord?, words, List.isPrefixOf?, eq_comm (b := c), hother]
  have hread : readPlain? (c :: (cs ++ rest)) = some (.number n 0, rest) := by
    rw [readPlain?, hword]
    · rw [← List.cons_append, ← hcs]
      exact hnumber
    · simp [hother]
  have hlength : rest.length ≤ (cs ++ rest).length := by
    rw [List.length_append]
    omega
  rw [hcs]
  refine tokens?_of_readPlain? hread ?_ ?_ hlength
  · simp [isBlank, hother]
  · unfold punctuation?
    split <;> simp_all

/-! ### Texts with commas between them -/

section Intercalating

variable {α : Type} {text : α → List Char} {ts : α → List Token} {b : List Char}

theorem stops_intercalate (xs : List α) (h : ∀ x ∈ xs, Stops (text x)) :
    Stops (List.intercalate (',' :: b) (xs.map text)) := by
  cases xs with
  | nil => exact nofun
  | cons x xs =>
      have hx : Stops (text x) := h x List.mem_cons_self
      cases xs with
      | nil => simpa only [List.map_singleton, List.intercalate_singleton] using hx
      | cons y xs =>
          rw [List.map_cons, List.map_cons, List.intercalate_cons_cons, List.append_assoc]
          exact hx.append (stops_cons rfl _)

/-- Texts with commas between them, and blanks behind the commas. -/
theorem lexes_intercalate (hb : b.all isBlank = true) (xs : List α)
    (h : ∀ x ∈ xs, Lexes (text x) (ts x)) (stops : ∀ x ∈ xs, Stops (text x)) :
    Lexes (List.intercalate (',' :: b) (xs.map text)) (List.intercalate [.comma] (xs.map ts)) := by
  induction xs with
  | nil =>
      intro rest _
      show tokens? rest = (tokens? rest).map id
      rw [Option.map_id]
      rfl
  | cons x xs ih =>
      have hx : Lexes (text x) (ts x) := h x List.mem_cons_self
      have hstops : ∀ y ∈ xs, Stops (text y) := fun y hy => stops y (List.mem_cons_of_mem x hy)
      have hxs := ih (fun y hy => h y (List.mem_cons_of_mem x hy)) hstops
      cases xs with
      | nil => simpa only [List.map_singleton, List.intercalate_singleton] using hx
      | cons y xs =>
          have hcomma : Lexes (',' :: b) [.comma] := lexes_punctuation rfl rfl hb
          have hrest := hcomma.append hxs (stops_intercalate (y :: xs) hstops)
          have hall := hx.append hrest (stops_cons rfl _)
          simpa only [List.map_cons, List.intercalate_cons_cons, List.append_assoc] using hall

end Intercalating

/-! ## Values are read back -/

/-- Tokens have this value, whatever comes behind them. -/
def Reads (ts : List Token) (v : Value) : Prop := ∀ rest, readValue? (ts ++ rest) = some (v, rest)

theorem reads_plain (v : Value) : Reads [.plain v] v := fun rest => by
  rw [List.singleton_append, readValue?]

/-- No value begins with a closing bracket. -/
theorem Reads.head?_ne {ts : List Token} {v : Value} (h : Reads ts v) (rest : List Token) :
    (ts ++ rest).head? ≠ some .closeArray := by
  intro hclose
  obtain ⟨more, hmore⟩ := List.head?_eq_some_iff.1 hclose
  have hread := h rest
  rw [hmore, readValue?] at hread
  · cases hread
  all_goals simp

section Steps

variable {ts : List Token} {v : Value} (h : Reads ts v) (name : String) (rest : List Token)

/-- The tokens of a member. -/
def memberTokens (name : String) (ts : List Token) : List Token :=
  .plain (.string name) :: .colon :: ts

theorem readValue?_openArray (hfirst : ts.head? ≠ some .closeArray) :
    readValue? (.openArray :: ts) = (readItems? ts).map (Prod.map .array id) := by
  rw [readValue?]
  rintro more rfl
  exact hfirst rfl

theorem readValue?_openObject (hfirst : ts.head? ≠ some .closeObject) :
    readValue? (.openObject :: ts) = (readMembers? ts).map (Prod.map .object id) := by
  rw [readValue?]
  rintro more rfl
  exact hfirst rfl

include h

theorem readItems?_comma :
    readItems? (ts ++ .comma :: rest) = (readItems? rest).map (Prod.map (v :: ·) id) := by
  rw [readItems?, h]
  apply dif_pos
  rw [List.length_append, List.length_cons]
  omega

theorem readItems?_closeArray : readItems? (ts ++ .closeArray :: rest) = some ([v], rest) := by
  rw [readItems?, h]

theorem readMembers?_comma :
    readMembers? (memberTokens name ts ++ .comma :: rest) =
      (readMembers? rest).map (Prod.map ((name, v) :: ·) id) := by
  rw [memberTokens, List.cons_append, List.cons_append, readMembers?, h]
  apply dif_pos
  rw [List.length_append, List.length_cons]
  omega

theorem readMembers?_closeObject :
    readMembers? (memberTokens name ts ++ .closeObject :: rest) = some ([(name, v)], rest) := by
  rw [memberTokens, List.cons_append, List.cons_append, readMembers?, h]

end Steps

section Lists

variable {α β : Type} {ts : α → List Token} {value : α → Value} (name : α → String) (xs : List α)

theorem exists_intercalate_eq_append (sep a : List α) (as : List (List α)) :
    ∃ more, List.intercalate sep (a :: as) = a ++ more := by
  cases as with
  | nil => exact ⟨[], by rw [List.intercalate_singleton, List.append_nil]⟩
  | cons a' as => exact ⟨_, by rw [List.intercalate_cons_cons, List.append_assoc]⟩

/-- Items of an array and members of an object are both read one by one, up to what closes them. -/
theorem read_intercalate_append {read : List Token → Option (List β × List Token)} {close : Token}
    {item : α → β} (x : α)
    (hcomma : ∀ y ∈ x :: xs, ∀ rest,
      read (ts y ++ .comma :: rest) = (read rest).map (Prod.map (item y :: ·) id))
    (hclose : ∀ y ∈ x :: xs, ∀ rest, read (ts y ++ close :: rest) = some ([item y], rest))
    (rest : List Token) :
    read (List.intercalate [.comma] ((x :: xs).map ts) ++ close :: rest) =
      some ((x :: xs).map item, rest) := by
  induction xs generalizing x with
  | nil =>
      rw [List.map_singleton, List.intercalate_singleton, hclose x List.mem_cons_self]
      rfl
  | cons y xs ih =>
      have hrest := ih y (fun z hz => hcomma z (List.mem_cons_of_mem x hz))
        (fun z hz => hclose z (List.mem_cons_of_mem x hz))
      rw [List.map_cons, List.map_cons, List.intercalate_cons_cons, List.append_assoc,
        List.append_assoc, List.singleton_append, hcomma x List.mem_cons_self, ← List.map_cons,
        hrest]
      rfl

/-- **Values with commas between them are the items of an array.** -/
theorem reads_array (h : ∀ x ∈ xs, Reads (ts x) (value x)) :
    Reads (.openArray :: List.intercalate [.comma] (xs.map ts) ++ [.closeArray])
      (.array (xs.map value)) := by
  intro rest
  rw [List.append_assoc, List.cons_append, List.singleton_append]
  cases xs with
  | nil => simp [readValue?]
  | cons x xs =>
      have hitems := read_intercalate_append xs x (fun y hy => readItems?_comma (h y hy))
        (fun y hy => readItems?_closeArray (h y hy)) rest
      obtain ⟨more, hmore⟩ := exists_intercalate_eq_append [.comma] (ts x) (xs.map ts)
      rw [readValue?_openArray, hitems]
      · rfl
      · rw [List.map_cons, hmore, List.append_assoc]
        exact (h x List.mem_cons_self).head?_ne _

/-- **Members with commas between them are an object.** -/
theorem reads_object (h : ∀ x ∈ xs, Reads (ts x) (value x)) :
    Reads (.openObject :: List.intercalate [.comma]
        (xs.map fun x => memberTokens (name x) (ts x)) ++ [.closeObject])
      (.object (xs.map fun x => (name x, value x))) := by
  intro rest
  rw [List.append_assoc, List.cons_append, List.singleton_append]
  cases xs with
  | nil => simp [readValue?]
  | cons x xs =>
      have hmembers := read_intercalate_append xs x
        (fun y hy => readMembers?_comma (h y hy) (name y))
        (fun y hy => readMembers?_closeObject (h y hy) (name y)) rest
      obtain ⟨more, hmore⟩ := exists_intercalate_eq_append [.comma] (memberTokens (name x) (ts x))
        (xs.map fun x => memberTokens (name x) (ts x))
      rw [readValue?_openObject, hmembers]
      · rfl
      · rw [List.map_cons, hmore]
        simp [memberTokens]

end Lists

/-- What tokens say is what a text with these tokens says. -/
theorem read?_of_lexes {text : List Char} {ts : List Token} {v : Value} (htext : Lexes text ts)
    (hts : Reads ts v) : read? (String.ofList text) = some v := by
  have htokens := htext [] nofun
  have hvalue := hts []
  rw [List.append_nil] at htokens hvalue
  simp [read?, htokens, tokens?, hvalue]

end ScopeScore.Json
