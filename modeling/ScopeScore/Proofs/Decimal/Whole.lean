import Mathlib.Tactic.Ring
import ScopeScore.Report.ScoreSort

set_option autoImplicit false

/-! # Whole numbers as binary64 numbers

A column of words is compared with a binary64 threshold in binary64 numbers, while an amount is
compared with another exactly. For whole numbers below `2 ^ 53` this is the same
(**`ScoreSort.reaches_int`**).

Arithmetic takes a number apart into its sign, its digits and its exponent, as `Parts.of` does
(`Parts.unpack_eq`). A whole number `n` gets the digits `n · 2^k` with a leading bit and the
exponent `-k` (`Parts.of_ofNat`): all roundings on the way shift by zeros. Numbers are compared by
their exponents first, and that is the order of their values because only those with the least
exponent lack a leading bit (`Parts.compare_scaled`).
-/

namespace ScopeScore.Decimal.Parts

open Float.Model

/-! ## Bits -/

def sign (negative : Bool) : UnpackedFloat.Sign := if negative then .negative else .positive

/-- The number that arithmetic computes with. -/
def unpacked : Parts → UnpackedFloat
  | .nan => .notANumber
  | .infinite negative => .infinity (sign negative)
  | .finite negative m q =>
      if h : m = 0 then .zero (sign negative)
      else .finite (sign negative) m q (Nat.pos_of_ne_zero h)

section Bits

variable (x : Float)

/-- The digits behind the leading bit. -/
def fractionBits : BitVec 52 := @UnpackedFloat.unpackMantissa Format.binary64 x.toBits.toBitVec

def exponentBits : BitVec 11 := @UnpackedFloat.unpackExponent Format.binary64 x.toBits.toBitVec

def signBit : BitVec 1 := @UnpackedFloat.unpackSign Format.binary64 x.toBits.toBitVec

theorem toNat_fractionBits : (fractionBits x).toNat = x.toBits.toNat % Nat.pow 2 52 := by
  simp [fractionBits, UnpackedFloat.unpackMantissa]

theorem toNat_exponentBits : (exponentBits x).toNat = x.toBits.toNat / Nat.pow 2 52 % 2048 := by
  simp [exponentBits, UnpackedFloat.unpackExponent, Nat.shiftRight_eq_div_pow]

theorem ofBitVec_signBit :
    UnpackedFloat.Sign.ofBitVec (signBit x) =
      sign (decide (Nat.pow 2 63 ≤ x.toBits.toNat)) := by
  have hlt : x.toBits.toNat < 2 ^ 64 := x.toBits.toNat_lt
  have hsign : (signBit x).toNat = x.toBits.toNat / 2 ^ 63 % 2 := by
    show (BitVec.extractLsb 63 63 x.toBits.toBitVec).toNat = _
    simp [Nat.shiftRight_eq_div_pow]
  have hzero : signBit x = 0#1 ↔ ¬ Nat.pow 2 63 ≤ x.toBits.toNat := by
    rw [← BitVec.toNat_inj, hsign, Nat.pow_eq]
    show _ = 0 ↔ _
    omega
  rw [UnpackedFloat.Sign.ofBitVec, sign]
  by_cases hneg : Nat.pow 2 63 ≤ x.toBits.toNat
  · rw [if_neg fun h => hzero.1 h hneg, if_pos (decide_eq_true hneg)]
  · rw [if_pos (hzero.2 hneg), if_neg (by simpa using hneg)]

theorem toNat_append_fractionBits :
    (1#1 ++ fractionBits x).toNat = Nat.pow 2 52 + (fractionBits x).toNat := by
  rw [BitVec.toNat_append, ← Nat.shiftLeft_add_eq_or_of_lt (BitVec.isLt _)]
  rfl

/-- What the three fields of the bits say. -/
theorem of_eq : of x =
    let negative := decide (Nat.pow 2 63 ≤ x.toBits.toNat)
    if exponentBits x = -1#11 then
      if fractionBits x = 0#52 then .infinite negative else .nan
    else if exponentBits x = 0#11 then .finite negative (fractionBits x).toNat (-1074)
    else .finite negative (1#1 ++ fractionBits x).toNat ((exponentBits x).toNat - 1075) := by
  simp only [toNat_append_fractionBits, ← BitVec.toNat_inj, toNat_fractionBits, toNat_exponentBits]
  rfl

/-- Arithmetic takes a number apart in the same way. -/
theorem unpack_eq : x.toModel.unpack = (of x).unpacked := by
  show UnpackedFloat.unpack Format.binary64 x.toBits.toBitVec = _
  rw [of_eq]
  by_cases hspecial : exponentBits x = -1#11
  · rw [if_pos hspecial]
    by_cases hzero : fractionBits x = 0#52
    · rw [if_pos hzero, unpacked, ← ofBitVec_signBit]
      exact (if_pos hspecial).trans (if_pos hzero)
    · rw [if_neg hzero]
      exact (if_pos hspecial).trans (if_neg hzero)
  · rw [if_neg hspecial]
    by_cases hleast : exponentBits x = 0#11
    · rw [if_pos hleast, unpacked, ← ofBitVec_signBit]
      by_cases hzero : fractionBits x = 0#52
      · have hnone : (fractionBits x).toNat = 0 := congrArg BitVec.toNat hzero
        rw [dif_pos hnone]
        exact (if_neg hspecial).trans ((if_pos hleast).trans (dif_pos hzero))
      · have hsome : (fractionBits x).toNat ≠ 0 := fun h => hzero (BitVec.eq_of_toNat_eq h)
        rw [dif_neg hsome]
        refine ((if_neg hspecial).trans ((if_pos hleast).trans (dif_neg hzero))).trans ?_
        congr 1
        show ((exponentBits x).toNat : Int) - 1075 + 1 = -1074
        rw [hleast]
        rfl
    · have hsome : (1#1 ++ fractionBits x).toNat ≠ 0 := by
        rw [toNat_append_fractionBits]
        have hpow : Nat.pow 2 52 ≠ 0 := by decide
        omega
      rw [if_neg hleast, unpacked, ← ofBitVec_signBit, dif_neg hsome]
      exact (if_neg hspecial).trans (if_neg hleast)

variable {x}

/-- Digits without a leading bit come with the least exponent only. -/
theorem leading_of_finite {negative : Bool} {m : Nat} {q : Int} (hx : of x = .finite negative m q) :
    m < 2 ^ 53 ∧ (2 ^ 52 ≤ m ∨ q = -1074) := by
  have hfraction : x.toBits.toNat % Nat.pow 2 52 < Nat.pow 2 52 := Nat.mod_lt _ (by decide)
  unfold of at hx
  simp only [Nat.pow_eq] at hfraction hx
  split at hx
  · split at hx <;> cases hx
  · split at hx <;> cases hx <;> omega

end Bits

section Packing

variable {m : Nat} {e : Int} (pos : 0 < m) (hlog : m.log2 = 52) (hlow : -1074 ≤ e)

include hlog hlow

theorem toNat_pack (hhigh : e ≤ 971) :
    (Float.Model.pack (.finite .positive m e pos)).toBits.toNat =
      (e + 1075).toNat * 2 ^ 52 + m % 2 ^ 52 := by
  have hbias : (e + Format.binary64.exponentBias + (52 : Nat)).toNat = (e + 1075).toNat := by
    show (e + 1023 + 52).toNat = _
    omega
  have hbits : Format.binary64.mantissaBits = 53 := rfl
  show (UnpackedFloat.pack Format.binary64 (.finite .positive m e pos)).toNat = _
  unfold UnpackedFloat.pack
  simp only [hbias, hlog, hbits]
  rw [if_neg (by omega), if_pos trivial]
  -- the leading bit is not among the bits, for the exponent tells of it
  show ((0#1 ++ BitVec.ofNat 11 (e + 1075).toNat) ++ BitVec.ofNat 52 m).toNat = _
  rw [BitVec.toNat_append, ← Nat.shiftLeft_add_eq_or_of_lt (BitVec.isLt _), BitVec.toNat_append]
  simp [Nat.shiftLeft_eq]
  omega

/-- A number with a leading bit is taken apart into what it was made of. -/
theorem of_pack (hhigh : e ≤ 971) :
    of (.ofModel (Float.Model.pack (.finite .positive m e pos))) = .finite false m e := by
  obtain ⟨hm, hm'⟩ := (Nat.log2_eq_iff pos.ne').1 hlog
  have hbits : (Float.ofModel (Float.Model.pack (.finite .positive m e pos))).toBits.toNat =
      (e + 1075).toNat * 2 ^ 52 + m % 2 ^ 52 := toNat_pack pos hlog hlow hhigh
  have hexponent : ((e + 1075).toNat * 2 ^ 52 + m % 2 ^ 52) / 2 ^ 52 % 2048 = (e + 1075).toNat := by
    omega
  have hfraction : ((e + 1075).toNat * 2 ^ 52 + m % 2 ^ 52) % 2 ^ 52 = m % 2 ^ 52 := by omega
  unfold of
  rw [hbits]
  simp only [Nat.pow_eq, hexponent, hfraction]
  rw [if_neg (by omega), if_neg (by omega), decide_eq_false (by omega)]
  congr 1 <;> omega

theorem unpack_pack (hhigh : e ≤ 971) :
    (Float.Model.pack (.finite .positive m e pos)).unpack = .finite .positive m e pos := by
  have hunpack := unpack_eq (.ofModel (Float.Model.pack (.finite .positive m e pos)))
  rw [of_pack pos hlog hlow hhigh, unpacked, dif_neg pos.ne'] at hunpack
  exact hunpack

end Packing

/-! ## Rounding -/

section Rounding

open UnpackedFloat (ExtendedMantissa)

/-- Shifting out zeros loses nothing. -/
theorem shiftRight_exact (m j : Nat) :
    ExtendedMantissa.ofMantissaAndAccuracy (m * 2 ^ j) .exact >>> j =
      ExtendedMantissa.ofMantissaAndAccuracy m .exact := by
  show j.repeat ExtendedMantissa.shiftRightOne _ = _
  induction j generalizing m with
  | zero => simp [Nat.repeat]
  | succ j ih =>
      -- the last of the shifts halves `m · 2`
      have hsplit : m * 2 ^ (j + 1) = m * 2 * 2 ^ j := by ring
      rw [Nat.repeat, hsplit, ih (m * 2)]
      simp [ExtendedMantissa.shiftRightOne, ExtendedMantissa.ofMantissaAndAccuracy]

theorem targetExponent_eq (e : Int) : Format.binary64.targetExponent e = max (e - 53) (-1074) := rfl

theorem log2_mul_two_pow {m : Nat} (hm : m ≠ 0) (j : Nat) : (m * 2 ^ j).log2 = m.log2 + j := by
  induction j with
  | zero => simp
  | succ j ih =>
      have hne : m * 2 ^ j ≠ 0 := Nat.mul_ne_zero hm (Nat.two_pow_pos j).ne'
      rw [show m * 2 ^ (j + 1) = 2 * (m * 2 ^ j) by ring, Nat.log2_two_mul hne, ih, Nat.add_assoc]

variable {m : Nat} {e : Int} (pos : 0 < m) (hlog : m.log2 = 52) (hlow : -1074 ≤ e) (j : Nat)

include pos hlog hlow

theorem shiftToTargetExponent_exact :
    UnpackedFloat.shiftToTargetExponent Format.binary64 (m * 2 ^ j) (e - j) .exact =
      (ExtendedMantissa.ofMantissaAndAccuracy m .exact, e) := by
  have htarget : Format.binary64.targetExponent (totalExponent (m * 2 ^ j) (e - j)) = e := by
    rw [targetExponent_eq, totalExponent, log2_mul_two_pow pos.ne' j]
    omega
  have hshift : (e - (e - j)).toNat = j := by omega
  simp only [UnpackedFloat.shiftToTargetExponent, UnpackedFloat.shiftToExponent, htarget, hshift,
    shiftRight_exact]
  congr 1
  omega

/-- Rounding `m · 2^j` to the digits `m` is exact, and the second rounding has nothing to do. -/
theorem roundWithAccuracy_exact :
    UnpackedFloat.roundWithAccuracy Format.binary64 .positive (m * 2 ^ j) (e - j) .exact =
      .finite .positive m e pos := by
  have hagain := shiftToTargetExponent_exact pos hlog hlow 0
  rw [Nat.pow_zero, Nat.mul_one, Nat.cast_zero, Int.sub_zero] at hagain
  have hfinal : ∀ final, final = (ExtendedMantissa.ofMantissaAndAccuracy m .exact, e) →
      (if h : final.1.mantissa = 0 then UnpackedFloat.zero .positive
        else .finite .positive final.1.mantissa final.2 (Nat.pos_of_ne_zero h)) =
      .finite .positive m e pos := by
    rintro _ rfl
    exact dif_neg pos.ne'
  unfold UnpackedFloat.roundWithAccuracy
  rw [shiftToTargetExponent_exact pos hlog hlow j]
  exact hfinal _ hagain

end Rounding

/-! ## Whole numbers -/

section Whole

variable {n k : Nat}

theorem ofNat_eq (pos : 0 < n * 2 ^ k) (hlog : (n * 2 ^ k).log2 = 52) :
    UnpackedFloat.ofNat Format.binary64 n =
      .finite .positive (n * 2 ^ k) (-(k : Int)) pos := by
  have hn : 0 < n := Nat.pos_of_mul_pos_right pos
  have hk : n.log2 + k = 52 := by rw [← log2_mul_two_pow hn.ne', hlog]
  have hcompare : compare (n : Int) 0 = .gt := Int.compare_eq_gt.2 (by omega)
  have htarget : Format.binary64.targetExponent (totalExponent n 0) = -(k : Int) := by
    rw [targetExponent_eq, totalExponent]
    omega
  have hround := roundWithAccuracy_exact (e := -(k : Int)) pos hlog (by omega) 0
  rw [Nat.pow_zero, Nat.mul_one, Nat.cast_zero, Int.sub_zero] at hround
  refine Eq.trans ?_ hround
  unfold UnpackedFloat.ofNat UnpackedFloat.ofInt UnpackedFloat.normalize UnpackedFloat.round
  simp only [hcompare, Int.toNat_natCast, htarget, UnpackedFloat.decreaseExponent, Int.zero_sub,
    Int.neg_neg, Nat.shiftLeft_eq]

/-- A whole number below `2 ^ 53` is a binary64 number. -/
theorem of_ofNat (hn : 0 < n) (hsmall : n < 2 ^ 53) :
    ∃ k : Nat, k ≤ 52 ∧ (n * 2 ^ k).log2 = 52 ∧
      of (Float.ofNat n) = .finite false (n * 2 ^ k) (-(k : Int)) := by
  have hlt : n.log2 < 53 := (Nat.log2_lt hn.ne').2 hsmall
  obtain ⟨k, hk⟩ : ∃ k, n.log2 + k = 52 := ⟨52 - n.log2, by omega⟩
  have pos : 0 < n * 2 ^ k := Nat.mul_pos hn (Nat.two_pow_pos k)
  have hlog : (n * 2 ^ k).log2 = 52 := by rw [log2_mul_two_pow hn.ne', hk]
  have hword : (ofUInt64 n.toUInt64).unpack = .finite .positive (n * 2 ^ k) (-(k : Int)) pos := by
    have hnat : n.toUInt64.toNat = n := by
      rw [UInt64.toNat_ofNat']
      omega
    rw [ofUInt64, UnpackedFloat.ofUInt64, hnat, ofNat_eq pos hlog]
    exact unpack_pack pos hlog (by omega) (by omega)
  -- the word is multiplied by the power of ten with the exponent zero
  have hone : (Float.exactlyRepresentablePowersOfTen[0]).toModel.unpack =
      .finite .positive (2 ^ 52) (-52) (by decide) := rfl
  have hround := roundWithAccuracy_exact (e := -(k : Int)) pos hlog (by omega) 52
  refine ⟨k, by omega, hlog, ?_⟩
  show of (Float.ofScientific n false 0) = _
  unfold Float.ofScientific
  rw [dif_pos ⟨hsmall, by decide⟩]
  show of (.ofModel (Float.Model.pack (UnpackedFloat.mul Format.binary64
    (ofUInt64 n.toUInt64).unpack (Float.exactlyRepresentablePowersOfTen[0]).toModel.unpack))) = _
  rw [hone, hword]
  show of (.ofModel (Float.Model.pack (UnpackedFloat.roundWithAccuracy Format.binary64 .positive
    (n * 2 ^ k * 2 ^ 52) (-(k : Int) - (52 : Nat)) .exact))) = _
  rw [hround]
  exact of_pack pos hlog (by omega) (by omega)

end Whole

/-! ## Comparing -/

theorem two_mul_le_shifted (a : Nat) {i j : Nat} (h : i < j) : 2 * (a * 2 ^ i) ≤ a * 2 ^ j := by
  calc
    2 * (a * 2 ^ i) = a * 2 ^ (i + 1) := by ring
    _ ≤ a * 2 ^ j := Nat.mul_le_mul_left a (Nat.pow_le_pow_right (by decide) h)

/-- To compare the exponents first, and then the digits, is to compare the values. -/
theorem compare_scaled {n k m : Nat} {q : Int} (hn : 2 ^ 52 ≤ n * 2 ^ k) (hn' : n * 2 ^ k < 2 ^ 53)
    (hm : m < 2 ^ 53) (hleading : 2 ^ 52 ≤ m ∨ q = -1074) (hk : k ≤ 52) :
    (compare q (-(k : Int))).then (compare m (n * 2 ^ k)) =
      (compare (n * 2 ^ (-q).toNat) (m * 2 ^ q.toNat)).swap := by
  rcases lt_trichotomy q (-(k : Int)) with hq | rfl | hq
  · have hbelow : m * 2 ^ q.toNat < n * 2 ^ (-q).toNat := by
      have hscale : 2 * (n * 2 ^ k) ≤ n * 2 ^ (-q).toNat := two_mul_le_shifted n (by omega)
      rw [show q.toNat = 0 by omega]
      omega
    rw [Int.compare_eq_lt.2 hq, Nat.compare_eq_gt.2 hbelow]
    rfl
  · rw [Int.compare_eq_eq.2 rfl, Nat.compare_swap]
    simp
  · -- the exponent is not the least one, so there is a leading bit
    have hm' : 2 ^ 52 ≤ m := hleading.resolve_right (by omega)
    have habove : n * 2 ^ (-q).toNat < m * 2 ^ q.toNat := by
      by_cases hneg : q ≤ 0
      · have hscale : 2 * (n * 2 ^ (-q).toNat) ≤ n * 2 ^ k := two_mul_le_shifted n (by omega)
        rw [show q.toNat = 0 by omega]
        omega
      · have hscale : 2 * (m * 2 ^ 0) ≤ m * 2 ^ q.toNat := two_mul_le_shifted m (by omega)
        have hle : n ≤ n * 2 ^ k := Nat.le_mul_of_pos_right n (Nat.two_pow_pos k)
        rw [show (-q).toNat = 0 by omega]
        omega
    rw [Int.compare_eq_gt.2 hq, Nat.compare_eq_lt.2 habove]
    rfl

theorem compareInt_finite (n m : Nat) (negative : Bool) (q : Int) :
    compareInt n (.finite negative m q) = some (
      if negative = true ∧ 0 < m then .gt
      else compare (n * 2 ^ (-q).toNat) (m * 2 ^ q.toNat)) := by
  have hcast : ∀ a b : Nat, compare (a : Int) (b : Int) = compare a b := by
    intro a b
    simp [compare, compareOfLessAndEq]
  cases negative with
  | false => simp [compareInt, ← hcast]
  | true =>
      rcases Nat.eq_zero_or_pos m with rfl | hm
      · simp [compareInt, ← hcast]
      · have hbelow : -(m : Int) * (2 ^ q.toNat : Nat) < n * (2 ^ (-q).toNat : Nat) := by
          have hpos : 0 < m * 2 ^ q.toNat := Nat.mul_pos hm (Nat.two_pow_pos _)
          have hnonneg : 0 ≤ (n : Int) * (2 ^ (-q).toNat : Nat) :=
            Int.mul_nonneg (Int.natCast_nonneg _) (Int.natCast_nonneg _)
          rw [Int.neg_mul]
          omega
        simp only [compareInt, if_true, Nat.pow_eq, Int.compare_eq_gt.2 hbelow, hm, and_self]

section Comparing

variable (x : Float) {n : Nat}

theorem compare_unpacked_zero :
    (of x).unpacked.compare (.zero .positive) = ((of x).compareInt 0).map Ordering.swap := by
  cases of x with
  | nan => rfl
  | infinite negative => cases negative <;> rfl
  | finite negative m q =>
      rw [← Nat.cast_zero, compareInt_finite]
      rcases Nat.eq_zero_or_pos m with rfl | hm
      · rw [unpacked, dif_pos rfl]
        show some Ordering.eq = _
        simp
      · have hbelow : 0 * 2 ^ (-q).toNat < m * 2 ^ q.toNat := by
          rw [Nat.zero_mul]
          exact Nat.mul_pos hm (Nat.two_pow_pos _)
        rw [unpacked, dif_neg hm.ne', Nat.compare_eq_lt.2 hbelow]
        cases negative with
        | true =>
            show some Ordering.lt = _
            simp [hm]
        | false =>
            show some Ordering.gt = _
            simp

theorem compare_unpacked_finite {k : Nat} (pos : 0 < n * 2 ^ k) (hlog : (n * 2 ^ k).log2 = 52)
    (hk : k ≤ 52) :
    (of x).unpacked.compare (.finite .positive (n * 2 ^ k) (-(k : Int)) pos) =
      ((of x).compareInt n).map Ordering.swap := by
  obtain ⟨hlow, hhigh⟩ := (Nat.log2_eq_iff pos.ne').1 hlog
  cases hx : of x with
  | nan => rfl
  | infinite negative => cases negative <;> rfl
  | finite negative m q =>
      rw [compareInt_finite]
      rcases Nat.eq_zero_or_pos m with rfl | hm
      · have habove : 0 * 2 ^ q.toNat < n * 2 ^ (-q).toNat := by
          rw [Nat.zero_mul]
          exact Nat.mul_pos (Nat.pos_of_mul_pos_right pos) (Nat.two_pow_pos _)
        rw [unpacked, dif_pos rfl, Nat.compare_eq_gt.2 habove]
        show some Ordering.lt = _
        simp
      · obtain ⟨hbound, hleading⟩ := leading_of_finite hx
        rw [unpacked, dif_neg hm.ne']
        cases negative with
        | true =>
            show some Ordering.lt = _
            simp [hm]
        | false =>
            show some ((compare q (-(k : Int))).then (compare m (n * 2 ^ k))) = _
            simp [compare_scaled hlow hhigh hbound hleading hk]

/-- To compare a number with the binary64 number of a whole number below `2 ^ 53` is to compare it
with the whole number. -/
theorem le_ofNat_iff (hsmall : n < 2 ^ 53) :
    x ≤ Float.ofNat n ↔ ((of x).compareInt n).any Ordering.isGE = true := by
  have hcompare : x.toModel.unpack.compare (Float.ofNat n).toModel.unpack =
      ((of x).compareInt n).map Ordering.swap := by
    rw [unpack_eq, unpack_eq]
    rcases Nat.eq_zero_or_pos n with rfl | hn
    · exact compare_unpacked_zero x
    · obtain ⟨k, hk, hlog, hof⟩ := of_ofNat hn hsmall
      have pos : 0 < n * 2 ^ k := Nat.mul_pos hn (Nat.two_pow_pos k)
      rw [hof, unpacked, dif_neg pos.ne']
      exact compare_unpacked_finite x pos hlog hk
  show decide (x.toModel ≤ (Float.ofNat n).toModel) = true ↔ _
  rw [decide_eq_true_iff]
  show (x.toModel.unpack.compare (Float.ofNat n).toModel.unpack).any Ordering.isLE = true ↔ _
  rw [hcompare, Option.any_map]
  cases (of x).compareInt n with
  | none => rfl
  | some order => cases order <;> rfl

end Comparing

end ScopeScore.Decimal.Parts

namespace ScopeScore

/-- **Scores below `2 ^ 53` are compared exactly**, in a column of any sort. -/
theorem ScoreSort.reaches_int (sort : ScoreSort) (t : Amount) {n : Nat} (hsmall : n < 2 ^ 53) :
    sort.reaches t (.int n) = t.le (.int n) := by
  cases sort with
  | words =>
      cases t with
      | int m => rfl
      | real x =>
          show decide (x ≤ Float.ofNat n) = ((Decimal.Parts.of x).compareInt n).any Ordering.isGE
          rw [Bool.eq_iff_iff, decide_eq_true_iff]
          exact Decimal.Parts.le_ofNat_iff x hsmall
  | reals => rfl
  | mixed => rfl

/-- Beyond that a column of words may round up to a threshold. -/
example :
    let t : Amount := .real (Float.ofNat (2 ^ 53 + 4))
    ScoreSort.words.reaches t (.int (2 ^ 53 + 3)) = true ∧ t.le (.int (2 ^ 53 + 3)) = false := by
  decide +kernel

end ScopeScore
