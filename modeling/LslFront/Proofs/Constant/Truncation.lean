import LslFront.Proofs.Binary64.Value

/-!
# Doubles made integers

Converting a double is meant to drop the fraction and reduce the rest modulo `2 ^ 32`, as long as
it can be counted in 64 bits, and to give the least integer otherwise.  `truncateToInteger` does so
for all doubles but two.  The bound that it compares with is not `2 ^ 63` but the double just below,
and no double lies between, so `2 ^ 63 - 1024` and its negative are the ones that are refused
although they can be counted.
-/

namespace LslFront

/-! ### Rounding toward zero -/

/-- What is left of a number without its fraction. -/
def truncated (q : ℚ) : ℤ :=
  if 0 ≤ q then ⌊q⌋ else ⌈q⌉

theorem truncated_of_nonneg {q : ℚ} (h : 0 ≤ q) : truncated q = ⌊q⌋ :=
  if_pos h

theorem truncated_neg_of_nonneg {q : ℚ} (h : 0 ≤ q) : truncated (-q) = -⌊q⌋ := by
  rw [truncated, Int.ceil_neg]
  split
  · next hneg =>
      have hzero : q = 0 := by linarith
      simp [hzero]
  · rfl

theorem abs_truncated (q : ℚ) : |truncated q| = ⌊|q|⌋ := by
  rcases le_total 0 q with h | h
  · rw [truncated_of_nonneg h, abs_of_nonneg h, abs_of_nonneg (Int.floor_nonneg.mpr h)]
  · have hneg : 0 ≤ -q := neg_nonneg.mpr h
    rw [← neg_neg q, truncated_neg_of_nonneg hneg, abs_neg, abs_neg, abs_of_nonneg hneg,
      abs_of_nonneg (Int.floor_nonneg.mpr hneg)]

namespace Binary64

theorem floorMagnitude_eq (significand : Nat) (exponent : Int) :
    (floorMagnitude significand exponent : ℤ) = ⌊(significand : ℚ) * 2 ^ exponent⌋ := by
  obtain ⟨n, rfl | rfl⟩ := exponent.eq_nat_or_neg
  · have hcast : (significand : ℚ) * 2 ^ (n : ℤ) = ((significand * 2 ^ n : ℕ) : ℤ) := by
      push_cast
      rfl
    rw [hcast, Int.floor_intCast]
    simp [floorMagnitude]
  · have hcast : (significand : ℚ) * 2 ^ (-n : ℤ) = (significand : ℚ) / (2 ^ n : ℕ) := by
      rw [zpow_neg, zpow_natCast]
      push_cast
      rfl
    rw [hcast, Rat.floor_natCast_div_natCast]
    simp [floorMagnitude]

theorem truncated_value (negative : Bool) (significand : Nat) (exponent : Int) :
    truncated ((if negative then -(significand : ℤ) else significand : ℤ) * 2 ^ exponent)
      = if negative then -(floorMagnitude significand exponent : ℤ)
        else floorMagnitude significand exponent := by
  have hnonneg : (0 : ℚ) ≤ significand * 2 ^ exponent := by positivity
  cases negative with
  | false => simpa [floorMagnitude_eq] using truncated_of_nonneg hnonneg
  | true => simpa [floorMagnitude_eq] using truncated_neg_of_nonneg hnonneg

/-- Doubles of this size are 1024 apart, so just one is at the bound or above but below `2 ^ 63`. -/
theorem magnitude_eq_bound {significand : Nat} {exponent : Int} (hbits : significand < 2 ^ 53)
    (hnormal : 2 ^ 52 ≤ significand ∨ exponent = minExponent)
    (hleast : (2 ^ 63 - 1024 : ℚ) ≤ significand * 2 ^ exponent)
    (hmost : (significand : ℚ) * 2 ^ exponent < 2 ^ 63) :
    (significand : ℚ) * 2 ^ exponent = 2 ^ 63 - 1024 := by
  -- With a smaller exponent the number would be less than `2 ^ 62`.
  have hlarge : 10 ≤ exponent := by
    by_contra hsmall
    have hpower : (2 : ℚ) ^ exponent ≤ 2 ^ (9 : ℤ) :=
      zpow_le_zpow_right₀ (by norm_num) (by omega)
    have hsignificand : (significand : ℚ) < 2 ^ 53 := by exact_mod_cast hbits
    have hproduct : (significand : ℚ) * 2 ^ exponent < 2 ^ 53 * 2 ^ (9 : ℤ) :=
      mul_lt_mul hsignificand hpower (by positivity) (by positivity)
    norm_num at hproduct hleast hmost
    linarith
  have hsignificand : 2 ^ 52 ≤ significand := by
    rcases hnormal with h | h
    · exact h
    · rw [h, minExponent] at hlarge
      omega
  -- With a larger one it would be at least `2 ^ 63`, for all 53 bits are in use.
  have hexponent : exponent = 10 := by
    by_contra hne
    have hpower : (2 : ℚ) ^ (11 : ℤ) ≤ 2 ^ exponent :=
      zpow_le_zpow_right₀ (by norm_num) (by omega)
    have hcast : (2 : ℚ) ^ 52 ≤ significand := by exact_mod_cast hsignificand
    have hproduct : (2 : ℚ) ^ 52 * 2 ^ (11 : ℤ) ≤ significand * 2 ^ exponent :=
      mul_le_mul hcast hpower (by positivity) (by positivity)
    norm_num at hproduct hleast hmost
    linarith
  have hall : significand = 2 ^ 53 - 1 := by
    rw [hexponent] at hleast
    have hscaled : (2 ^ 63 - 1024 : ℤ) ≤ significand * 2 ^ 10 := by exact_mod_cast hleast
    omega
  rw [hexponent, hall]
  norm_num

end Binary64

/-! ### What is meant -/

/-- The integer that a double is meant to give: the one congruent to what is left of the double
    without its fraction, and the least if that cannot be counted in 64 bits. -/
structure WrapsTruncation (x : Float) (i : Int32) : Prop where
  counted : ∀ q, exactValue? x = some q → |truncated q| < 2 ^ 63 →
    i.toInt ≡ truncated q [ZMOD 2 ^ 32]
  tooLarge : ∀ q, exactValue? x = some q → 2 ^ 63 ≤ |truncated q| → i = Int32.minValue
  notFinite : exactValue? x = none → i = Int32.minValue

/-- The double just below `2 ^ 63`, or its negative. -/
def IsBound (x : Float) : Prop :=
  ∃ q, exactValue? x = some q ∧ |q| = 2 ^ 63 - 1024

theorem toInt_eq_of_modEq {i j : Int32} (h : i.toInt ≡ j.toInt [ZMOD 2 ^ 32]) : i = j := by
  have hi := i.le_toInt
  have hi' := i.toInt_lt
  have hj := j.le_toInt
  have hj' := j.toInt_lt
  rw [← Int32.toInt_inj]
  rw [Int.ModEq] at h
  omega

/-- The conditions leave no choice. -/
theorem WrapsTruncation.unique {x : Float} {i j : Int32} (hi : WrapsTruncation x i)
    (hj : WrapsTruncation x j) : i = j := by
  rcases hx : exactValue? x with _ | q
  · rw [hi.notFinite hx, hj.notFinite hx]
  · rcases lt_or_ge |truncated q| (2 ^ 63) with hlt | hle
    · exact toInt_eq_of_modEq ((hi.counted q hx hlt).trans (hj.counted q hx hlt).symm)
    · rw [hi.tooLarge q hx hle, hj.tooLarge q hx hle]

/-! ### What is done -/

theorem toInt_ofInt_modEq (t : ℤ) : (Int32.ofInt t).toInt ≡ t [ZMOD 2 ^ 32] := by
  rw [Int32.toInt_ofInt]
  exact Int.bmod_emod

theorem exactValue?_of_finite {x : Float} {negative : Bool} {significand : Nat} {exponent : Int}
    (h : Binary64.ofFloat x = .finite negative significand exponent) : exactValue? x
      = some (((if negative then -(significand : ℤ) else significand : ℤ) : ℚ) * 2 ^ exponent) := by
  rw [← Binary64.value?_ofFloat, h]
  rfl

theorem truncateToInteger_of_not_finite {x : Float} (h : exactValue? x = none) :
    truncateToInteger x = Int32.minValue := by
  rw [truncateToInteger]
  split
  · next hfinite => cases h.symm.trans (exactValue?_of_finite hfinite)
  · rfl

section

variable {x : Float} {q : ℚ} (h : exactValue? x = some q)
include h

theorem exists_finite : ∃ negative significand exponent,
    Binary64.ofFloat x = .finite negative significand exponent
      ∧ q = ((if negative then -(significand : ℤ) else significand : ℤ) : ℚ) * 2 ^ exponent := by
  cases hx : Binary64.ofFloat x with
  | finite negative significand exponent =>
      exact ⟨_, _, _, rfl, Option.some.inj (h.symm.trans (exactValue?_of_finite hx))⟩
  | infinite | nan =>
      rw [← Binary64.value?_ofFloat, hx] at h
      cases h

/-- The conversion in terms of the number that is converted. -/
theorem truncateToInteger_eq : truncateToInteger x
    = if 2 ^ 63 - 1024 ≤ |truncated q| then Int32.minValue else .ofInt (truncated q) := by
  obtain ⟨negative, significand, exponent, hfinite, rfl⟩ := exists_finite h
  rw [Binary64.truncated_value, truncateToInteger, hfinite]
  have habs (magnitude : Nat) :
      |if negative then -(magnitude : ℤ) else magnitude| = magnitude := by
    cases negative <;> simp
  rw [habs]
  refine if_congr ?_ rfl rfl
  rw [Nat.pow_eq]
  omega

theorem abs_eq_bound_iff :
    |q| = 2 ^ 63 - 1024 ↔ 2 ^ 63 - 1024 ≤ |truncated q| ∧ |truncated q| < 2 ^ 63 := by
  have hlow : (2 ^ 63 - 1024 : ℚ) ≤ |q| ↔ 2 ^ 63 - 1024 ≤ ⌊|q|⌋ := by
    rw [Int.le_floor]
    norm_num
  have hhigh : |q| < 2 ^ 63 ↔ ⌊|q|⌋ < 2 ^ 63 := by
    rw [Int.floor_lt]
    norm_num
  rw [abs_truncated, ← hlow, ← hhigh]
  constructor
  · intro hbound
    rw [hbound]
    norm_num
  · rintro ⟨hleast, hmost⟩
    obtain ⟨negative, significand, exponent, hfinite, rfl⟩ := exists_finite h
    obtain ⟨hbits, hnormal⟩ := Binary64.normal_of_ofBits hfinite
    have habs : |((if negative then -(significand : ℤ) else significand : ℤ) : ℚ) * 2 ^ exponent|
        = significand * 2 ^ exponent := by
      cases negative <;> simp
    rw [habs] at hleast hmost ⊢
    exact Binary64.magnitude_eq_bound hbits hnormal hleast hmost

end

theorem wrapsTruncation_of_not_isBound {x : Float} (h : ¬ IsBound x) :
    WrapsTruncation x (truncateToInteger x) where
  counted q hq hlt := by
    have hne : ¬ 2 ^ 63 - 1024 ≤ |truncated q| :=
      fun hle => h ⟨q, hq, (abs_eq_bound_iff hq).mpr ⟨hle, hlt⟩⟩
    rw [truncateToInteger_eq hq, if_neg hne]
    exact toInt_ofInt_modEq _
  tooLarge q hq hle := by
    rw [truncateToInteger_eq hq, if_pos (by omega)]
  notFinite := truncateToInteger_of_not_finite

theorem truncateToInteger_of_isBound {x : Float} (h : IsBound x) :
    truncateToInteger x = Int32.minValue := by
  obtain ⟨q, hq, hbound⟩ := h
  rw [truncateToInteger_eq hq, if_pos ((abs_eq_bound_iff hq).mp hbound).1]

/-- The least integer is not congruent to a bound. -/
theorem not_wrapsTruncation_of_isBound {x : Float} (h : IsBound x) :
    ¬ WrapsTruncation x Int32.minValue := by
  obtain ⟨q, hq, hbound⟩ := h
  obtain ⟨hlow, hhigh⟩ := (abs_eq_bound_iff hq).mp hbound
  intro hwraps
  have hleast : Int32.minValue.toInt = -2 ^ 31 := rfl
  have hcongruent := hwraps.counted q hq hhigh
  rw [hleast, Int.ModEq] at hcongruent
  rcases abs_cases (truncated q) with ⟨habs, -⟩ | ⟨habs, -⟩
  · omega
  · omega

/-- Every double becomes the integer that is meant, but for the two bounds, which become the
    least. -/
theorem truncateToInteger_wraps_iff (x : Float) :
    (WrapsTruncation x (truncateToInteger x) ↔ ¬ IsBound x)
      ∧ (IsBound x → truncateToInteger x = Int32.minValue) := by
  refine ⟨⟨fun hwraps hbound => ?_, wrapsTruncation_of_not_isBound⟩, truncateToInteger_of_isBound⟩
  rw [truncateToInteger_of_isBound hbound] at hwraps
  exact not_wrapsTruncation_of_isBound hbound hwraps

/-- The double just below `2 ^ 63` is meant to give `-1024`. -/
theorem truncateToInteger_below_bound :
    truncateToInteger (.ofBits 0x43DFFFFFFFFFFFFF) = Int32.minValue
      ∧ WrapsTruncation (.ofBits 0x43DFFFFFFFFFFFFF) (-1024)
      ∧ ¬ WrapsTruncation (.ofBits 0x43DFFFFFFFFFFFFF) Int32.minValue := by
  have hfinite : Binary64.ofFloat (.ofBits 0x43DFFFFFFFFFFFFF)
      = .finite false (2 ^ 53 - 1) 10 := by decide
  have hvalue : exactValue? (.ofBits 0x43DFFFFFFFFFFFFF) = some (2 ^ 63 - 1024 : ℤ) := by
    rw [exactValue?_of_finite hfinite]
    norm_num
  have hbound : IsBound (.ofBits 0x43DFFFFFFFFFFFFF) := ⟨_, hvalue, by norm_num⟩
  have htruncated : truncated ((2 ^ 63 - 1024 : ℤ) : ℚ) = 2 ^ 63 - 1024 :=
    (truncated_of_nonneg (by norm_num)).trans (Int.floor_intCast _)
  refine ⟨truncateToInteger_of_isBound hbound, ?_, not_wrapsTruncation_of_isBound hbound⟩
  refine ⟨fun q hq _ => ?_, fun q hq hle => ?_, fun hnone => ?_⟩
  · cases hvalue.symm.trans hq
    rw [htruncated]
    decide
  · cases hvalue.symm.trans hq
    rw [htruncated] at hle
    exact absurd hle (by decide)
  · cases hvalue.symm.trans hnone

end LslFront
