import ScopeScore.Text.Utf8
import Mathlib.Tactic.IntervalCases

set_option autoImplicit false

/-! # Texts and their octets

Every text has octets that spell it, and reading them strictly gives the text back. No other octets
are read as a text.

`Utf8.encode` writes one character after the other, in one to four octets. The first octet says how
many follow and holds the highest bits; which octets the reader admits next depends on it
(`begin?_three`, `begin?_four`), and the forms that it refuses are those that no character has.

* `Utf8.decodeFrom_encodeChar`: the octets of one character are read as that character.
* **`Utf8.decode_encode`**: what was written is read.
* `Utf8.beginsWithChar_of_decodeFrom`: what is read begins with the octets of a character, since each
  bound on an octet rules out what no character has.
* **`Utf8.decode_eq_ok_iff`**: so nothing is read but what some text is written as.
-/

namespace ScopeScore.Utf8

/-- The octets of a text. -/
def encode (s : String) : List UInt8 := s.toList.flatMap String.utf8EncodeChar

/-! ## Single octets -/

section Octets

variable {position : Nat} {b : UInt8} {p : Pending} {rest : List UInt8}

theorem decodeFrom_ascii (hb : b < 0x80) :
    decodeFrom position none (b :: rest) =
      (decodeFrom (position + 1) none rest).map (Char.ofNat b.toNat :: ·) := by
  rw [decodeFrom, if_pos hb]
  cases decodeFrom (position + 1) none rest <;> rfl

theorem decodeFrom_lead (hb : ¬ b < 0x80) (hp : Pending.begin? position b = some p) :
    decodeFrom position none (b :: rest) = decodeFrom (position + 1) (some p) rest := by
  rw [decodeFrom, if_neg hb, hp]

theorem decodeFrom_more {more : Nat} (hmore : p.more = more + 1) (hb : p.admits b = true) :
    decodeFrom position (some p) (b :: rest) =
      decodeFrom (position + 1) (some (p.push b more)) rest := by
  rw [decodeFrom, if_pos hb, hmore]

theorem decodeFrom_last (hmore : p.more = 0) (hb : p.admits b = true) :
    decodeFrom position (some p) (b :: rest) =
      (decodeFrom (position + 1) none rest).map (Char.ofNat (p.extended b) :: ·) := by
  rw [decodeFrom, if_pos hb, hmore]
  cases decodeFrom (position + 1) none rest <;> rfl

end Octets

/-- The octet that continues a sequence with the six bits `x`. -/
def trailing (x : Nat) : UInt8 := UInt8.ofNat (x + 128)

theorem toNat_trailing {x : Nat} (hx : x < 64) : (trailing x).toNat = x + 128 := by
  have hsize : x + 128 < UInt8.size := by
    show x + 128 < 256
    omega
  exact UInt8.toNat_ofNat_of_lt' hsize

theorem extended_trailing (p : Pending) {x : Nat} (hx : x < 64) :
    p.extended (trailing x) = p.value * 64 + x := by
  have hbits : (trailing x).toNat - 0x80 = x := by
    rw [toNat_trailing hx, Nat.add_sub_cancel]
  unfold Pending.extended
  rw [hbits]

theorem admits_trailing {p : Pending} {x : Nat} (hx : x < 64) (hlow : p.low.toNat ≤ x + 128)
    (hhigh : x + 128 ≤ p.high.toNat) : p.admits (trailing x) = true := by
  rw [Pending.admits, Bool.and_eq_true, decide_eq_true_iff, decide_eq_true_iff,
    UInt8.le_iff_toNat_le, UInt8.le_iff_toNat_le, toNat_trailing hx]
  exact ⟨hlow, hhigh⟩

/-! ## First octets -/

theorem begin?_two (position : Nat) {x : Nat} (hlow : 2 ≤ x) (hhigh : x < 32) :
    Pending.begin? position (UInt8.ofNat (x + 192)) =
      some { position, octets := [UInt8.ofNat (x + 192)], value := x, more := 0, low := 0x80,
             high := 0xBF } := by
  interval_cases x <;> rfl

/-- Behind the least first octet the small values would be overlong, and in one range there are no
characters. -/
theorem begin?_three (position : Nat) {x : Nat} (hx : x < 16) :
    Pending.begin? position (UInt8.ofNat (x + 224)) =
      some { position, octets := [UInt8.ofNat (x + 224)], value := x, more := 1,
             low := if x = 0 then 0xA0 else 0x80, high := if x = 13 then 0x9F else 0xBF } := by
  interval_cases x <;> rfl

theorem begin?_four (position : Nat) {x : Nat} (hx : x < 5) :
    Pending.begin? position (UInt8.ofNat (x + 240)) =
      some { position, octets := [UInt8.ofNat (x + 240)], value := x, more := 2,
             low := if x = 0 then 0x90 else 0x80, high := if x = 4 then 0x8F else 0xBF } := by
  interval_cases x <;> rfl

/-! ## Characters -/

section Sequences

variable {position : Nat} {p : Pending} {rest : List UInt8} {x y z : Nat}

/-- Behind the second octet of a sequence all octets that continue one are admitted. -/
theorem admits_push (p : Pending) (b : UInt8) (more : Nat) (hx : x < 64) :
    (p.push b more).admits (trailing x) = true := by
  refine admits_trailing hx ?_ ?_
  · show 128 ≤ x + 128
    omega
  · show x + 128 ≤ 191
    omega

theorem decodeFrom_one (hmore : p.more = 0) (hx : x < 64) (hp : p.admits (trailing x) = true) :
    decodeFrom position (some p) (trailing x :: rest) =
      (decodeFrom (position + 1) none rest).map (Char.ofNat (p.value * 64 + x) :: ·) := by
  rw [decodeFrom_last hmore hp, extended_trailing p hx]

theorem decodeFrom_two (hmore : p.more = 1) (hx : x < 64) (hp : p.admits (trailing x) = true)
    (hy : y < 64) :
    decodeFrom position (some p) (trailing x :: trailing y :: rest) =
      (decodeFrom (position + 2) none rest).map
        (Char.ofNat ((p.value * 64 + x) * 64 + y) :: ·) := by
  rw [decodeFrom_more hmore hp, decodeFrom_one rfl hy (admits_push p _ _ hy), Pending.push,
    extended_trailing p hx]

theorem decodeFrom_three (hmore : p.more = 2) (hx : x < 64) (hp : p.admits (trailing x) = true)
    (hy : y < 64) (hz : z < 64) :
    decodeFrom position (some p) (trailing x :: trailing y :: trailing z :: rest) =
      (decodeFrom (position + 3) none rest).map
        (Char.ofNat (((p.value * 64 + x) * 64 + y) * 64 + z) :: ·) := by
  rw [decodeFrom_more hmore hp, decodeFrom_two rfl hy (admits_push p _ _ hy) hz, Pending.push,
    extended_trailing p hx]

end Sequences

/-- A first octet of a sequence is no character by itself. -/
theorem not_lt_of_lead {x : Nat} (hlow : 128 ≤ x) (hhigh : x < 256) : ¬ UInt8.ofNat x < 0x80 := by
  rw [UInt8.lt_iff_toNat_lt, UInt8.toNat_ofNat_of_lt' hhigh]
  show ¬ x < 128
  omega

section Lengths

variable {position v : Nat} {rest : List UInt8}

theorem decodeFrom_length_one (hhigh : v < 0x80) :
    decodeFrom position none (UInt8.ofNat v :: rest) =
      (decodeFrom (position + 1) none rest).map (Char.ofNat v :: ·) := by
  have hsize : v < UInt8.size := by
    show v < 256
    omega
  have hv : (UInt8.ofNat v).toNat = v := UInt8.toNat_ofNat_of_lt' hsize
  have hascii : UInt8.ofNat v < 0x80 := by
    rw [UInt8.lt_iff_toNat_lt, hv]
    exact hhigh
  rw [decodeFrom_ascii hascii, hv]

theorem decodeFrom_length_two (hlow : 0x80 ≤ v) (hhigh : v < 0x800) :
    decodeFrom position none (UInt8.ofNat (v / 64 % 32 + 192) :: trailing (v % 64) :: rest) =
      (decodeFrom (position + 2) none rest).map (Char.ofNat v :: ·) := by
  have hvalue : v / 64 % 32 * 64 + v % 64 = v := by omega
  have hx : v % 64 < 64 := by omega
  rw [decodeFrom_lead (not_lt_of_lead (by omega) (by omega))
      (begin?_two position (by omega) (by omega)),
    decodeFrom_one rfl hx (admits_trailing hx ?low ?high), hvalue]
  case low =>
    show 128 ≤ v % 64 + 128
    omega
  case high =>
    show v % 64 + 128 ≤ 191
    omega

/-- Characters of three octets begin where those of two end, so the second octet is not too small,
and there are none in the range of surrogates, so it is not too large. -/
theorem decodeFrom_length_three (hlow : 0x800 ≤ v) (hhigh : v < 0x10000)
    (hvalid : v < 0xD800 ∨ 0xDFFF < v) :
    decodeFrom position none (UInt8.ofNat (v / 4096 % 16 + 224) :: trailing (v / 64 % 64) ::
        trailing (v % 64) :: rest) =
      (decodeFrom (position + 3) none rest).map (Char.ofNat v :: ·) := by
  have hvalue : (v / 4096 % 16 * 64 + v / 64 % 64) * 64 + v % 64 = v := by omega
  have hx : v / 64 % 64 < 64 := by omega
  have hy : v % 64 < 64 := by omega
  rw [decodeFrom_lead (not_lt_of_lead (by omega) (by omega)) (begin?_three position (by omega)),
    decodeFrom_two rfl hx (admits_trailing hx ?low ?high) hy, hvalue]
  case low =>
    dsimp only
    split
    · show 160 ≤ v / 64 % 64 + 128
      omega
    · show 128 ≤ v / 64 % 64 + 128
      omega
  case high =>
    dsimp only
    split
    · show v / 64 % 64 + 128 ≤ 159
      omega
    · show v / 64 % 64 + 128 ≤ 191
      omega

theorem decodeFrom_length_four (hlow : 0x10000 ≤ v) (hhigh : v < 0x110000) :
    decodeFrom position none (UInt8.ofNat (v / 262144 % 8 + 240) :: trailing (v / 4096 % 64) ::
        trailing (v / 64 % 64) :: trailing (v % 64) :: rest) =
      (decodeFrom (position + 4) none rest).map (Char.ofNat v :: ·) := by
  have hvalue : ((v / 262144 % 8 * 64 + v / 4096 % 64) * 64 + v / 64 % 64) * 64 + v % 64 = v := by
    omega
  have hx : v / 4096 % 64 < 64 := by omega
  have hy : v / 64 % 64 < 64 := by omega
  have hz : v % 64 < 64 := by omega
  rw [decodeFrom_lead (not_lt_of_lead (by omega) (by omega)) (begin?_four position (by omega)),
    decodeFrom_three rfl hx (admits_trailing hx ?low ?high) hy hz, hvalue]
  case low =>
    dsimp only
    split
    · show 144 ≤ v / 4096 % 64 + 128
      omega
    · show 128 ≤ v / 4096 % 64 + 128
      omega
  case high =>
    dsimp only
    split
    · show v / 4096 % 64 + 128 ≤ 143
      omega
    · show v / 4096 % 64 + 128 ≤ 191
      omega

end Lengths

/-- **The octets of a character are read as that character.** -/
theorem decodeFrom_encodeChar (c : Char) (position : Nat) (rest : List UInt8) :
    ∃ position', decodeFrom position none (String.utf8EncodeChar c ++ rest) =
      (decodeFrom position' none rest).map (c :: ·) := by
  have hvalid : c.toNat < 0xD800 ∨ 0xDFFF < c.toNat ∧ c.toNat < 0x110000 := c.valid
  have hread : ∃ position', decodeFrom position none (String.utf8EncodeChar c ++ rest) =
      (decodeFrom position' none rest).map (Char.ofNat c.toNat :: ·) := by
    unfold String.utf8EncodeChar
    simp only [Char.toNat_val]
    -- by length; only for three octets it matters that the character is no surrogate
    split
    · exact ⟨_, decodeFrom_length_one (v := c.toNat) (by omega)⟩
    split
    · exact ⟨_, decodeFrom_length_two (v := c.toNat) (by omega) (by omega)⟩
    split
    · exact ⟨_, decodeFrom_length_three (v := c.toNat) (by omega) (by omega) (by omega)⟩
    · exact ⟨_, decodeFrom_length_four (v := c.toNat) (by omega) (by omega)⟩
  rwa [c.ofNat_toNat] at hread

/-! ## Texts -/

theorem decodeFrom_flatMap_encodeChar (cs : List Char) (position : Nat) :
    decodeFrom position none (cs.flatMap String.utf8EncodeChar) = .ok cs := by
  induction cs generalizing position with
  | nil => rfl
  | cons c cs ih =>
      -- positions are told only of faults, so the one behind `c` does not matter
      obtain ⟨position', hread⟩ := decodeFrom_encodeChar c position
        (cs.flatMap String.utf8EncodeChar)
      rw [List.flatMap_cons, hread, ih]
      rfl

/-- **Every text is spelled by its octets.** -/
theorem decode_encode (s : String) : decode (encode s) = .ok s := by
  rw [decode, encode, decodeFrom_flatMap_encodeChar]
  show Except.ok (String.ofList s.toList) = _
  rw [String.ofList_toList]

/-! ## What is accepted -/

section Accepted

variable {position v : Nat} {b : UInt8} {p : Pending} {octets rest : List UInt8} {cs : List Char}

theorem exists_trailing (hlow : 128 ≤ b.toNat) (hhigh : b.toNat ≤ 191) :
    ∃ x < 64, b = trailing x := by
  have hbits : b.toNat - 128 < 64 := by omega
  refine ⟨b.toNat - 128, hbits, UInt8.toNat_inj.1 ?_⟩
  rw [toNat_trailing hbits]
  omega

/-- Inside a sequence, what is accepted begins with an octet that is admitted. -/
theorem exists_admitted (h : decodeFrom position (some p) octets = .ok cs)
    (hlow : 128 ≤ p.low.toNat) (hhigh : p.high.toNat ≤ 191) :
    ∃ x < 64, ∃ rest, octets = trailing x :: rest ∧ p.admits (trailing x) = true ∧
      p.low.toNat ≤ x + 128 ∧ x + 128 ≤ p.high.toNat := by
  cases octets with
  | nil => cases h
  | cons b rest =>
      have hadmits : p.admits b = true := by
        by_contra hrefused
        rw [decodeFrom, if_neg hrefused] at h
        cases h
      have hbounds : p.low.toNat ≤ b.toNat ∧ b.toNat ≤ p.high.toNat := by
        simpa only [Pending.admits, Bool.and_eq_true, decide_eq_true_iff,
          UInt8.le_iff_toNat_le] using hadmits
      obtain ⟨x, hx, rfl⟩ := exists_trailing (b := b) (by omega) (by omega)
      rw [toNat_trailing hx] at hbounds
      exact ⟨x, hx, rest, rfl, hadmits, hbounds⟩

/-- The first octets of sequences are those of two, three and four octets. -/
theorem lead_cases (hp : Pending.begin? position b = some p) :
    (∃ x, 2 ≤ x ∧ x < 32 ∧ b = UInt8.ofNat (x + 192)) ∨
    (∃ x < 16, b = UInt8.ofNat (x + 224)) ∨ ∃ x < 5, b = UInt8.ofNat (x + 240) := by
  have hb : b.toNat < 256 := b.toNat_lt
  have hspell : ∀ x base, b.toNat = x + base → b = UInt8.ofNat (x + base) := by
    intro x base hx
    rw [← hx, UInt8.ofNat_toNat]
  have hlow : 194 ≤ b.toNat := by
    by_contra hsmall
    have hless : b < 0xC2 := UInt8.lt_iff_toNat_lt.2 (Nat.lt_of_not_le hsmall)
    rw [Pending.begin?, if_pos hless] at hp
    cases hp
  have hhigh : b.toNat < 245 := by
    by_contra hlarge
    have hless : ∀ c : UInt8, c.toNat ≤ 244 → ¬ b < c := fun c hc hbc => by
      have := UInt8.lt_iff_toNat_lt.1 hbc
      omega
    have hne : ∀ c : UInt8, c.toNat ≤ 244 → b ≠ c := fun c hc hbc => by
      rw [hbc] at hlarge
      omega
    rw [Pending.begin?, if_neg (hless _ (by decide)), if_neg (hless _ (by decide)),
      if_neg (hne _ (by decide)), if_neg (hne _ (by decide)), if_neg (hless _ (by decide)),
      if_neg (hne _ (by decide)), if_neg (hless _ (by decide)), if_neg (hne _ (by decide))] at hp
    cases hp
  by_cases htwo : b.toNat < 224
  · exact Or.inl ⟨b.toNat - 192, by omega, by omega, hspell _ _ (by omega)⟩
  by_cases hthree : b.toNat < 240
  · exact Or.inr (Or.inl ⟨b.toNat - 224, by omega, hspell _ _ (by omega)⟩)
  · exact Or.inr (Or.inr ⟨b.toNat - 240, by omega, hspell _ _ (by omega)⟩)

theorem toNat_ofNat (hvalid : v.isValidChar) : (Char.ofNat v).toNat = v := by
  rw [Char.ofNat, dif_pos hvalid]
  rfl

/-- What is read behind a character is accepted too. -/
theorem exists_of_map_cons {c : Char} {read : Except Invalid (List Char)}
    (h : read.map (c :: ·) = .ok cs) : ∃ cs', read = .ok cs' ∧ cs = c :: cs' := by
  cases read with
  | error e => cases h
  | ok cs' => exact ⟨cs', rfl, (Except.ok.inj h).symm⟩

/-- The octets begin with those of a character, and the rest is accepted too. -/
def BeginsWithChar (octets : List UInt8) (cs : List Char) : Prop :=
  ∃ c cs' position rest, octets = String.utf8EncodeChar c ++ rest ∧ cs = c :: cs' ∧
    decodeFrom position none rest = .ok cs'

theorem beginsWithChar_of_two {x : Nat} (hlow : 2 ≤ x) (hhigh : x < 32)
    (h : decodeFrom position none (UInt8.ofNat (x + 192) :: rest) = .ok cs) :
    BeginsWithChar (UInt8.ofNat (x + 192) :: rest) cs := by
  rw [decodeFrom_lead (not_lt_of_lead (by omega) (by omega)) (begin?_two position hlow hhigh)] at h
  obtain ⟨y, hy, rest, rfl, hadmits, -⟩ :=
    exists_admitted h (Nat.le_refl 128) (Nat.le_refl 191)
  rw [decodeFrom_one rfl hy hadmits] at h
  obtain ⟨cs', hread, rfl⟩ := exists_of_map_cons h
  refine ⟨_, cs', _, rest, ?_, rfl, hread⟩
  have hvalid : (x * 64 + y).isValidChar := Or.inl (by omega)
  have hfirst : (x * 64 + y) / 64 % 32 = x := by omega
  have hlast : (x * 64 + y) % 64 = y := by omega
  unfold String.utf8EncodeChar
  simp only [Char.toNat_val, toNat_ofNat hvalid]
  rw [if_neg (by omega), if_pos (by omega), hfirst, hlast]
  rfl

/-- The bounds on the second octet keep the value out of the range of shorter sequences and out of
that of surrogates. -/
theorem beginsWithChar_of_three {x : Nat} (hx : x < 16)
    (h : decodeFrom position none (UInt8.ofNat (x + 224) :: rest) = .ok cs) :
    BeginsWithChar (UInt8.ofNat (x + 224) :: rest) cs := by
  rw [decodeFrom_lead (not_lt_of_lead (by omega) (by omega)) (begin?_three position hx)] at h
  have hbounds : 128 ≤ (if x = 0 then (0xA0 : UInt8) else 0x80).toNat ∧
      (if x = 13 then (0x9F : UInt8) else 0xBF).toNat ≤ 191 := by
    constructor <;> split <;> decide
  obtain ⟨y, hy, rest, rfl, hadmits, hlow, hhigh⟩ := exists_admitted h hbounds.1 hbounds.2
  have hshort : x = 0 → 32 ≤ y := by
    rintro rfl
    have : 160 ≤ y + 128 := hlow
    omega
  have hsurrogate : x = 13 → y < 32 := by
    rintro rfl
    have : y + 128 ≤ 159 := hhigh
    omega
  rw [decodeFrom_more rfl hadmits] at h
  obtain ⟨z, hz, rest, rfl, hadmits', -⟩ :=
    exists_admitted h (Nat.le_refl 128) (Nat.le_refl 191)
  rw [← decodeFrom_more rfl hadmits, decodeFrom_two rfl hy hadmits hz] at h
  obtain ⟨cs', hread, rfl⟩ := exists_of_map_cons h
  refine ⟨_, cs', _, rest, ?_, rfl, hread⟩
  have hvalid : ((x * 64 + y) * 64 + z).isValidChar := by
    show _ < 0xD800 ∨ 0xDFFF < _ ∧ _ < 0x110000
    omega
  have hfirst : ((x * 64 + y) * 64 + z) / 4096 % 16 = x := by omega
  have hsecond : ((x * 64 + y) * 64 + z) / 64 % 64 = y := by omega
  have hlast : ((x * 64 + y) * 64 + z) % 64 = z := by omega
  unfold String.utf8EncodeChar
  simp only [Char.toNat_val, toNat_ofNat hvalid]
  rw [if_neg (by omega), if_neg (by omega), if_pos (by omega), hfirst, hsecond, hlast]
  rfl

theorem beginsWithChar_of_four {x : Nat} (hx : x < 5)
    (h : decodeFrom position none (UInt8.ofNat (x + 240) :: rest) = .ok cs) :
    BeginsWithChar (UInt8.ofNat (x + 240) :: rest) cs := by
  rw [decodeFrom_lead (not_lt_of_lead (by omega) (by omega)) (begin?_four position hx)] at h
  have hbounds : 128 ≤ (if x = 0 then (0x90 : UInt8) else 0x80).toNat ∧
      (if x = 4 then (0x8F : UInt8) else 0xBF).toNat ≤ 191 := by
    constructor <;> split <;> decide
  obtain ⟨y, hy, rest, rfl, hadmits, hlow, hhigh⟩ := exists_admitted h hbounds.1 hbounds.2
  have hshort : x = 0 → 16 ≤ y := by
    rintro rfl
    have : 144 ≤ y + 128 := hlow
    omega
  have hlarge : x = 4 → y < 16 := by
    rintro rfl
    have : y + 128 ≤ 143 := hhigh
    omega
  rw [decodeFrom_more rfl hadmits] at h
  obtain ⟨z, hz, rest, rfl, hadmits', -⟩ :=
    exists_admitted h (Nat.le_refl 128) (Nat.le_refl 191)
  rw [decodeFrom_more rfl hadmits'] at h
  obtain ⟨w, hw, rest, rfl, -⟩ := exists_admitted h (Nat.le_refl 128) (Nat.le_refl 191)
  rw [← decodeFrom_more rfl hadmits', ← decodeFrom_more rfl hadmits,
    decodeFrom_three rfl hy hadmits hz hw] at h
  obtain ⟨cs', hread, rfl⟩ := exists_of_map_cons h
  refine ⟨_, cs', _, rest, ?_, rfl, hread⟩
  have hvalid : (((x * 64 + y) * 64 + z) * 64 + w).isValidChar := by
    show _ < 0xD800 ∨ 0xDFFF < _ ∧ _ < 0x110000
    omega
  have hfirst : (((x * 64 + y) * 64 + z) * 64 + w) / 262144 % 8 = x := by omega
  have hsecond : (((x * 64 + y) * 64 + z) * 64 + w) / 4096 % 64 = y := by omega
  have hthird : (((x * 64 + y) * 64 + z) * 64 + w) / 64 % 64 = z := by omega
  have hlast : (((x * 64 + y) * 64 + z) * 64 + w) % 64 = w := by omega
  unfold String.utf8EncodeChar
  simp only [Char.toNat_val, toNat_ofNat hvalid]
  rw [if_neg (by omega), if_neg (by omega), if_neg (by omega), hfirst, hsecond, hthird, hlast]
  rfl

theorem beginsWithChar_of_ascii (hb : b < 0x80)
    (h : decodeFrom position none (b :: rest) = .ok cs) : BeginsWithChar (b :: rest) cs := by
  rw [decodeFrom_ascii hb] at h
  obtain ⟨cs', hread, rfl⟩ := exists_of_map_cons h
  refine ⟨_, cs', _, rest, ?_, rfl, hread⟩
  have hsmall : b.toNat < 128 := UInt8.lt_iff_toNat_lt.1 hb
  have hvalid : b.toNat.isValidChar := Or.inl (by omega)
  unfold String.utf8EncodeChar
  simp only [Char.toNat_val, toNat_ofNat hvalid]
  rw [if_pos (by omega), UInt8.ofNat_toNat]
  rfl

/-- **Octets that are accepted begin with a character.** -/
theorem beginsWithChar_of_decodeFrom (h : decodeFrom position none (b :: rest) = .ok cs) :
    BeginsWithChar (b :: rest) cs := by
  by_cases hb : b < 0x80
  · exact beginsWithChar_of_ascii hb h
  · cases hp : Pending.begin? position b with
    | none =>
        rw [decodeFrom, if_neg hb, hp] at h
        cases h
    | some p =>
        rcases lead_cases hp with ⟨x, hlow, hhigh, rfl⟩ | ⟨x, hx, rfl⟩ | ⟨x, hx, rfl⟩
        · exact beginsWithChar_of_two hlow hhigh h
        · exact beginsWithChar_of_three hx h
        · exact beginsWithChar_of_four hx h

end Accepted

theorem eq_flatMap_of_decodeFrom {octets : List UInt8} {position : Nat} {cs : List Char}
    (h : decodeFrom position none octets = .ok cs) : octets = cs.flatMap String.utf8EncodeChar := by
  -- one character less in each step, of one octet or more
  induction hlength : octets.length using Nat.strong_induction_on
    generalizing octets position cs with
  | _ n ih =>
      cases octets with
      | nil =>
          obtain rfl : [] = cs := Except.ok.inj h
          rfl
      | cons b tail =>
          obtain ⟨c, cs', position', rest, hoctets, rfl, hrest⟩ := beginsWithChar_of_decodeFrom h
          have hshorter : rest.length < n := by
            have hsize := String.length_utf8EncodeChar c
            have hpos := c.utf8Size_pos
            rw [← hlength, hoctets, List.length_append]
            omega
          rw [hoctets, List.flatMap_cons, ← ih rest.length hshorter hrest rfl]

/-- **Octets are accepted exactly if they spell a text**, and then as that text. -/
theorem decode_eq_ok_iff {octets : List UInt8} {s : String} :
    decode octets = .ok s ↔ octets = encode s := by
  constructor
  · intro h
    unfold decode at h
    cases hread : decodeFrom 0 none octets with
    | error e =>
        rw [hread] at h
        cases h
    | ok cs =>
        rw [hread] at h
        obtain rfl : String.ofList cs = s := Except.ok.inj h
        rw [encode, String.toList_ofList]
        exact eq_flatMap_of_decodeFrom hread
  · rintro rfl
    exact decode_encode s

end ScopeScore.Utf8
