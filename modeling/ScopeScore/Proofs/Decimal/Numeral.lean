import ScopeScore.Decimal.Reader

set_option autoImplicit false

/-! # Integers in decimal

An integer is written in decimal with a minus if it is negative and without zeros in front. Such a
numeral is read by `integer?`, and at the front of a longer text by `splitMinus` and `whole?`.

**`integer?_toString`**: every integer has a numeral, and reading it gives the integer back.
-/

namespace ScopeScore.Decimal

/-- The digits at the front of a text, at least one, and what comes behind them. -/
def digits? (cs : List Char) : Option (List Char × List Char) :=
  let ds := cs.takeWhile Char.isDigit
  if ds = [] then none else some (ds, cs.dropWhile Char.isDigit)

/-- The digits of a whole number at the front of a text. Only zero itself begins with a zero. -/
def whole? (cs : List Char) : Option (List Char × List Char) := do
  let (ds, rest) ← digits? cs
  if ds.head? = some '0' ∧ ds ≠ ['0'] then none else some (ds, rest)

/-- Is there a minus at the front of a text? What comes behind it. -/
def splitMinus : List Char → Bool × List Char
  | '-' :: cs => (true, cs)
  | cs => (false, cs)

/-- A number from its sign and its digits. -/
def signed (negative : Bool) (ds : List Char) : Int :=
  if negative then -(digitsValue ds : Int) else digitsValue ds

/-- The integer that a text says in decimal. -/
def integer? (s : String) : Option Int := do
  let (negative, cs) := splitMinus s.toList
  let (ds, rest) ← whole? cs
  if rest = [] then some (signed negative ds) else none

/-! ## Digits of whole numbers -/

section Digits

variable (n : Nat)

theorem digitsValue_toDigits : digitsValue (Nat.toDigits 10 n) = n :=
  Nat.ofDigitChars_ten_toDigits

theorem isDigit_of_mem_toDigits : ∀ c ∈ Nat.toDigits 10 n, c.isDigit = true := fun _ hc =>
  Nat.isDigit_of_mem_toDigits (by decide) (by decide) hc

theorem exists_toDigits_eq_cons :
    ∃ d ds, Nat.toDigits 10 n = d :: ds ∧ d.isDigit = true := by
  obtain ⟨d, ds, hds⟩ := List.exists_cons_of_ne_nil (Nat.toDigits_ne_nil (n := n) (b := 10))
  exact ⟨d, ds, hds, isDigit_of_mem_toDigits n d (hds ▸ List.mem_cons_self)⟩

/-- Only zero begins with a zero. -/
theorem head?_toDigits_ne : n ≠ 0 → (Nat.toDigits 10 n).head? ≠ some '0' := by
  induction n using Nat.strongRecOn with
  | ind n ih =>
      intro hn
      by_cases hsmall : n < 10
      · rw [Nat.toDigits_of_lt_base hsmall, List.head?_cons, ne_eq, Option.some.injEq,
          Nat.digitChar_eq_zero]
        exact hn
      · have hsplit : Nat.toDigits 10 n = Nat.toDigits 10 (n / 10) ++ [(n % 10).digitChar] :=
          Nat.toDigits_of_base_le (by decide) (by omega)
        obtain ⟨d, ds, hds, -⟩ := exists_toDigits_eq_cons (n / 10)
        have hhead := ih (n / 10) (by omega) (by omega)
        rw [hds] at hsplit hhead
        rwa [hsplit]

variable {n} (rest : List Char) (stops : ∀ c ∈ rest.head?, c.isDigit = false)
include stops

theorem digits?_toDigits_append :
    digits? (Nat.toDigits 10 n ++ rest) = some (Nat.toDigits 10 n, rest) := by
  have hall := isDigit_of_mem_toDigits n
  have htake : rest.takeWhile Char.isDigit = [] := by
    cases rest with
    | nil => rfl
    | cons c rest => exact List.takeWhile_cons_of_neg (by simp [stops c rfl])
  have hdrop : rest.dropWhile Char.isDigit = rest := by
    cases rest with
    | nil => rfl
    | cons c rest => exact List.dropWhile_cons_of_neg (by simp [stops c rfl])
  unfold digits?
  rw [List.takeWhile_append_of_pos hall, List.dropWhile_append_of_pos hall, htake, hdrop,
    List.append_nil, if_neg Nat.toDigits_ne_nil]

theorem whole?_toDigits_append :
    whole? (Nat.toDigits 10 n ++ rest) = some (Nat.toDigits 10 n, rest) := by
  have hzeros : ¬ ((Nat.toDigits 10 n).head? = some '0' ∧ Nat.toDigits 10 n ≠ ['0']) := by
    rintro ⟨hhead, hne⟩
    by_cases hn : n = 0
    · subst hn
      exact hne rfl
    · exact head?_toDigits_ne n hn hhead
  unfold whole?
  rw [digits?_toDigits_append rest stops]
  exact if_neg hzeros

end Digits

/-! ## Integers -/

/-- The minus of an integer. -/
def minus (n : Int) : List Char := if n < 0 then ['-'] else []

theorem toList_toString (n : Int) :
    (toString n).toList = minus n ++ Nat.toDigits 10 n.natAbs := by
  rw [Int.toString_eq_repr, Int.repr_eq_if, minus]
  by_cases hn : n < 0
  · have habs : (-n).toNat = n.natAbs := by omega
    have hminus : "-".toList = ['-'] := rfl
    rw [if_neg (by omega), if_pos hn, String.toList_append, hminus, Nat.repr_eq_ofList_toDigits,
      habs, String.toList_ofList]
  · have habs : n.toNat = n.natAbs := by omega
    rw [if_pos (by omega), if_neg hn, Nat.repr_eq_ofList_toDigits, habs, String.toList_ofList]
    rfl

theorem splitMinus_toString_append (n : Int) (rest : List Char) :
    splitMinus ((toString n).toList ++ rest) =
      (decide (n < 0), Nat.toDigits 10 n.natAbs ++ rest) := by
  rw [toList_toString, minus]
  by_cases hn : n < 0
  · simp [hn, splitMinus]
  · -- a digit is no minus
    obtain ⟨d, ds, hds, hdigit⟩ := exists_toDigits_eq_cons n.natAbs
    have hd : d ≠ '-' := by
      rintro rfl
      exact absurd hdigit (by decide)
    rw [if_neg hn, List.nil_append, hds, List.cons_append, decide_eq_false hn]
    unfold splitMinus
    split
    · next h => exact absurd (List.cons.inj h).1 hd
    · rfl

theorem signed_toDigits (n : Int) :
    signed (decide (n < 0)) (Nat.toDigits 10 n.natAbs) = n := by
  rw [signed, digitsValue_toDigits]
  by_cases hn : n < 0
  · rw [if_pos (decide_eq_true hn)]
    omega
  · rw [if_neg (by simpa using hn)]
    omega

/-- **An integer is told by its numeral.** -/
theorem integer?_toString (n : Int) : integer? (toString n) = some n := by
  have hsplit := splitMinus_toString_append n []
  have hwhole := whole?_toDigits_append (n := n.natAbs) [] nofun
  rw [List.append_nil] at hsplit
  simp only [integer?, hsplit, hwhole, signed_toDigits, Option.bind_eq_bind, Option.bind_some,
    if_true]

end ScopeScore.Decimal
