import LslFront.Constant
import Mathlib

/-!
# The numbers that doubles stand for

`exactValue?` is the rational number that a double stands for, read off the model of doubles in the
core library: sign, mantissa and exponent, or no number for what is not finite.  `Binary64.ofFloat`
takes the bits apart by arithmetic instead, and `value?_ofFloat` says that it finds the same number.
Doubles are compared as their numbers are, so the two zeros are equal.
-/

namespace LslFront

open Float.Model (UnpackedFloat Format)
open Float.Model.UnpackedFloat

/-- The number that is written by a sign, a mantissa and an exponent. -/
def unpackedValue? : UnpackedFloat → Option ℚ
  | .zero _ => some 0
  | .finite sign mantissa exponent _ => some (sign.apply mantissa * 2 ^ exponent)
  | .infinity _ | .notANumber => none

/-- The number that a double stands for, if it is finite. -/
def exactValue? (x : Float) : Option ℚ :=
  unpackedValue? x.toModel.unpack

/-! ### Zero -/

theorem beq_zero_iff (x : Float) : (x == 0.0) = true ↔ exactValue? x = some 0 := by
  have hzero : (0.0 : Float).toModel.unpack = .zero .positive := rfl
  change (x.toModel.unpack.compare (0.0 : Float).toModel.unpack == some .eq) = true ↔ _
  rw [hzero, exactValue?]
  cases x.toModel.unpack with
  | infinity sign => cases sign <;> simp [UnpackedFloat.compare, unpackedValue?]
  | notANumber => simp [UnpackedFloat.compare, unpackedValue?]
  | zero sign => simp [UnpackedFloat.compare, unpackedValue?]
  | finite sign mantissa exponent hpos =>
      have hpower : (2 : ℚ) ^ exponent ≠ 0 := zpow_ne_zero exponent two_ne_zero
      cases sign <;> simp [UnpackedFloat.compare, unpackedValue?, Sign.apply, hpos.ne', hpower]

/-! ### Taking bits apart -/

namespace Binary64

/-- The number that is written by a sign, a significand and an exponent. -/
def value? : Binary64 → Option ℚ
  | .finite negative significand exponent =>
      some ((if negative then -(significand : ℤ) else significand : ℤ) * 2 ^ exponent)
  | .infinite _ | .nan => none

section

variable (bits : BitVec Format.binary64.numBits)

theorem toNat_unpackMantissa :
    (unpackMantissa bits).toNat = bits.toNat % 2 ^ 52 := by
  simp [unpackMantissa]

theorem toNat_unpackExponent :
    (unpackExponent bits).toNat = bits.toNat / 2 ^ 52 % 2 ^ 11 := by
  simp [unpackExponent, Nat.shiftRight_eq_div_pow]

theorem ofBitVec_unpackSign : Sign.ofBitVec (unpackSign bits)
    = if bits.toNat / 2 ^ 63 % 2 == 1 then .negative else .positive := by
  have hsign : (unpackSign bits).toNat = bits.toNat / 2 ^ 63 % 2 := by
    simp [unpackSign, Nat.shiftRight_eq_div_pow]
  simp only [Sign.ofBitVec, ← BitVec.toNat_inj, hsign]
  rcases Nat.mod_two_eq_zero_or_one (bits.toNat / 2 ^ 63) with h | h
  · rw [h]
    rfl
  · rw [h]
    rfl

/-- A normal number has one more bit than are stored. -/
theorem toNat_one_append {width : Nat} (mantissa : BitVec width) :
    (1#1 ++ mantissa).toNat = 2 ^ width + mantissa.toNat := by
  rw [BitVec.toNat_append, ← Nat.shiftLeft_add_eq_or_of_lt mantissa.isLt]
  simp [Nat.shiftLeft_eq]

theorem apply_ite (negative : Bool) (n : Int) :
    (if negative then Sign.negative else .positive).apply n = if negative then -n else n := by
  cases negative <;> rfl

theorem value?_ofBits : (ofBits bits.toNat).value? = unpackedValue? (unpack .binary64 bits) := by
  have hmantissa := toNat_unpackMantissa bits
  have hexponent := toNat_unpackExponent bits
  have hbias : Format.binary64.exponentBias = 1023 := rfl
  -- Both look first at the stored exponent, and then at the stored mantissa.
  have hmost : unpackExponent bits = -1#_
      ↔ bits.toNat / 2 ^ 52 % 2 ^ 11 = 2047 := by
    rw [← BitVec.toNat_inj, hexponent]
    rfl
  have hleast : unpackExponent bits = 0#_
      ↔ bits.toNat / 2 ^ 52 % 2 ^ 11 = 0 := by
    rw [← BitVec.toNat_inj, hexponent]
    rfl
  have hzero : unpackMantissa bits = 0#_ ↔ bits.toNat % 2 ^ 52 = 0 := by
    rw [← BitVec.toNat_inj, hmantissa]
    rfl
  simp only [UnpackedFloat.unpack, ofBits, Nat.pow_eq, hmost, hleast, hzero, ofBitVec_unpackSign]
  by_cases hfield : bits.toNat / 2 ^ 52 % 2 ^ 11 = 2047
  · rw [if_pos hfield, if_pos hfield]
    split
    · rfl
    · rfl
  · rw [if_neg hfield, if_neg hfield]
    by_cases hsubnormal : bits.toNat / 2 ^ 52 % 2 ^ 11 = 0
    · rw [if_pos hsubnormal, if_pos hsubnormal]
      by_cases hfraction : bits.toNat % 2 ^ 52 = 0
      · rw [dif_pos hfraction, hfraction]
        simp [value?, unpackedValue?]
      · rw [dif_neg hfraction]
        simp only [value?, unpackedValue?, apply_ite, hmantissa, hexponent, hsubnormal, hbias]
        rfl
    · rw [if_neg hsubnormal, if_neg hsubnormal]
      have hplace : minExponent + ((bits.toNat / 2 ^ 52 % 2 ^ 11 - 1 : ℕ) : ℤ)
          = ((bits.toNat / 2 ^ 52 % 2 ^ 11 : ℕ) : ℤ) - ((1023 : ℕ) + (52 : ℕ)) := by
        rw [minExponent]
        omega
      simp only [value?, unpackedValue?, apply_ite, toNat_one_append, hmantissa, hexponent, hbias,
        hplace]

end

/-- The bits of a double are taken apart into the number that it stands for. -/
theorem value?_ofFloat (x : Float) : (ofFloat x).value? = exactValue? x :=
  value?_ofBits x.toBits.toBitVec

/-- Significands have at most 53 bits, and 53 bits unless the exponent is the least. -/
theorem normal_of_ofBits {bits significand : Nat} {exponent : Int} {negative : Bool}
    (h : ofBits bits = .finite negative significand exponent) :
    significand < 2 ^ 53 ∧ (2 ^ 52 ≤ significand ∨ exponent = minExponent) := by
  have hfraction : bits % 2 ^ 52 < 2 ^ 52 := Nat.mod_lt _ (by decide)
  simp only [ofBits, Nat.pow_eq] at h
  split at h
  · split at h <;> cases h
  · split at h
    · cases h
      exact ⟨by omega, .inr rfl⟩
    · cases h
      exact ⟨by omega, .inl (by omega)⟩

end Binary64

end LslFront
