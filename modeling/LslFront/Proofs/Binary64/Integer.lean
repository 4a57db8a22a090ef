import LslFront.Proofs.Binary64.Value

/-!
# Integers as doubles

An integer of at most 53 bits is a double exactly.  The core library makes it by rounding, packing
and multiplying by one.  None of the three changes a normal number, that is one whose mantissa has
53 bits at an exponent in range, and an integer is such a number once it has been moved up to the
place of a mantissa.
-/

namespace LslFront

open Float.Model (UnpackedFloat Format totalExponent)
open Float.Model.UnpackedFloat

namespace Binary64

/-! ### Normal numbers -/

/-- A mantissa of 53 bits, and an exponent in range. -/
structure Normal (m : Nat) (e : Int) : Prop where
  least : 2 ^ 52 ≤ m
  most : m < 2 ^ 53
  low : -1074 ≤ e
  high : e ≤ 971

theorem ofBitVec_unpackSign_packComponents (sign : Sign) (exponent : BitVec 11)
    (mantissa : BitVec 52) :
    Sign.ofBitVec (unpackSign (packComponents .binary64 sign exponent mantissa)) = sign := by
  simp only [unpackSign, packComponents, BitVec.extractLsb]
  rw [BitVec.extractLsb'_append_eq_of_le (by omega),
    BitVec.extractLsb'_append_eq_of_le (by omega)]
  cases sign <;> rfl

namespace Normal

variable {m : Nat} {e : Int} (h : Normal m e)
include h

theorem pos : 0 < m :=
  Nat.lt_of_lt_of_le (by decide) h.least

theorem log2_eq : m.log2 = 52 :=
  (Nat.log2_eq_iff h.pos.ne').mpr ⟨h.least, h.most⟩

theorem log2_shifted (k : Nat) : (m * 2 ^ k).log2 = 52 + k := by
  have hpos : 0 < m * 2 ^ k := Nat.mul_pos h.pos (Nat.two_pow_pos k)
  rw [Nat.log2_eq_iff hpos.ne', pow_add, Nat.add_right_comm, pow_add]
  exact ⟨Nat.mul_le_mul_right _ h.least, Nat.mul_lt_mul_of_pos_right h.most (Nat.two_pow_pos k)⟩

theorem unpack_pack (sign : Sign) :
    unpack .binary64 (pack .binary64 (.finite sign m e h.pos)) = .finite sign m e h.pos := by
  have hlog := h.log2_eq
  obtain ⟨hleast, hmost, hlow, hhigh⟩ := h
  have hbias : Format.binary64.exponentBias = 1023 := rfl
  have hfield : (BitVec.ofNat 11 (e + 1075).toNat).toNat = (e + 1075).toNat := by
    rw [BitVec.toNat_ofNat]
    omega
  have hne_most : BitVec.ofNat 11 (e + 1075).toNat ≠ -1#11 := by
    rw [ne_eq, ← BitVec.toNat_inj, hfield]
    simp
    omega
  have hne_least : BitVec.ofNat 11 (e + 1075).toNat ≠ 0#11 := by
    rw [ne_eq, ← BitVec.toNat_inj, hfield]
    simp
    omega
  have hpack : pack .binary64 (.finite sign m e (Nat.lt_of_lt_of_le (by decide) hleast))
      = packComponents .binary64 sign (BitVec.ofNat 11 (e + 1075).toNat) (BitVec.ofNat 52 m) := by
    have hbiased : (e + Format.binary64.exponentBias + (52 : ℕ)).toNat = (e + 1075).toNat := by
      rw [hbias]
      omega
    have hbits : 52 + 1 = Format.binary64.mantissaBits := rfl
    simp only [pack, hlog, hbiased]
    rw [if_neg (by omega), if_pos hbits]
  have hmantissa : (1#1 ++ BitVec.ofNat 52 m).toNat = m := by
    rw [toNat_one_append, BitVec.toNat_ofNat]
    omega
  have hexponent : ((e + 1075).toNat : ℤ) - (Format.binary64.exponentBias + (52 : ℕ)) = e := by
    rw [hbias]
    omega
  rw [hpack]
  simp only [unpack, unpackMantissa_packComponents, unpackExponent_packComponents,
    ofBitVec_unpackSign_packComponents, if_neg hne_most, if_neg hne_least, hmantissa, hfield,
    hexponent]

omit h in
/-- Shifting drops zeros from the end, and nothing else has to be remembered. -/
theorem repeat_shiftRightOne (k j : Nat) :
    k.repeat ExtendedMantissa.shiftRightOne ⟨m * 2 ^ (k + j), false, false⟩
      = ⟨m * 2 ^ j, false, false⟩ := by
  induction k generalizing j with
  | zero => simp [Nat.repeat]
  | succ k ih =>
      have hsplit : k + 1 + j = k + (j + 1) := by omega
      have hhalf : m * 2 ^ (j + 1) = m * 2 ^ j * 2 := by rw [pow_succ, mul_assoc]
      rw [Nat.repeat, hsplit, ih, ExtendedMantissa.shiftRightOne, hhalf]
      simp

theorem targetExponent_shifted (k : Nat) :
    Format.binary64.targetExponent (totalExponent (m * 2 ^ k) (e - k)) = e := by
  have hleast : Format.binary64.minExponent = -1074 := rfl
  have hbits : Format.binary64.mantissaBits = 53 := rfl
  have hlow := h.low
  rw [Format.targetExponent, totalExponent, h.log2_shifted, hleast, hbits]
  omega

theorem shiftToTargetExponent_shifted (k : Nat) :
    shiftToTargetExponent .binary64 (m * 2 ^ k) (e - k) .exact = (⟨m, false, false⟩, e) := by
  have hrepeat : k.repeat ExtendedMantissa.shiftRightOne ⟨m * 2 ^ k, false, false⟩
      = ⟨m, false, false⟩ := by
    simpa using repeat_shiftRightOne (m := m) k 0
  simp [shiftToTargetExponent, h.targetExponent_shifted, shiftToExponent,
    ExtendedMantissa.ofMantissaAndAccuracy, HShiftRight.hShiftRight, hrepeat]

/-- A normal number is not rounded, whatever zeros stand behind its mantissa. -/
theorem roundWithAccuracy_shifted (sign : Sign) (k : Nat) :
    roundWithAccuracy .binary64 sign (m * 2 ^ k) (e - k) .exact = .finite sign m e h.pos := by
  have hagain : shiftToTargetExponent .binary64 m e .exact = (⟨m, false, false⟩, e) := by
    simpa using h.shiftToTargetExponent_shifted 0
  have hrounded : ExtendedMantissa.roundedMantissa ⟨m, false, false⟩ = m := rfl
  simp only [roundWithAccuracy, h.shiftToTargetExponent_shifted, hrounded, hagain]
  rw [dif_neg h.pos.ne']

end Normal

/-! ### Operations on normal numbers -/

/-- What has been unpacked is a normal number with this sign and this magnitude. -/
def IsNormal (sign : Sign) (magnitude : ℚ) (unpacked : UnpackedFloat) : Prop :=
  ∃ m e, ∃ h : Normal m e, unpacked = .finite sign m e h.pos ∧ (m : ℚ) * 2 ^ e = magnitude

namespace IsNormal

variable {sign : Sign} {magnitude : ℚ} {unpacked : UnpackedFloat}

theorem unpack_pack (h : IsNormal sign magnitude unpacked) :
    IsNormal sign magnitude (unpack .binary64 (pack .binary64 unpacked)) := by
  obtain ⟨m, e, hnormal, rfl, hvalue⟩ := h
  exact ⟨m, e, hnormal, hnormal.unpack_pack sign, hvalue⟩

theorem mul_one (h : IsNormal sign magnitude unpacked) : IsNormal sign magnitude
    (mul .binary64 unpacked (.finite .positive (2 ^ 52) (-52) (by decide))) := by
  obtain ⟨m, e, hnormal, rfl, hvalue⟩ := h
  refine ⟨m, e, hnormal, ?_, hvalue⟩
  have hsign : sign * .positive = sign := by cases sign <;> rfl
  rw [UnpackedFloat.mul, hsign]
  exact hnormal.roundWithAccuracy_shifted sign 52

theorem neg (h : IsNormal sign magnitude unpacked) :
    IsNormal (-sign) magnitude unpacked.neg := by
  obtain ⟨m, e, hnormal, rfl, hvalue⟩ := h
  exact ⟨m, e, hnormal, rfl, hvalue⟩

theorem unpackedValue?_positive (h : IsNormal .positive magnitude unpacked) :
    unpackedValue? unpacked = some magnitude := by
  obtain ⟨m, e, hnormal, rfl, rfl⟩ := h
  simp [unpackedValue?, Sign.apply]

theorem unpackedValue?_negative (h : IsNormal .negative magnitude unpacked) :
    unpackedValue? unpacked = some (-magnitude) := by
  obtain ⟨m, e, hnormal, rfl, rfl⟩ := h
  simp [unpackedValue?, Sign.apply]

end IsNormal

/-! ### Integers -/

section

variable {n : Nat} (hpos : 0 < n) (hlt : n < 2 ^ 53)
include hpos hlt

/-- A natural number is normal once it has been moved up by as many bits as it lacks. -/
theorem isNormal_unpackedOfNat : IsNormal .positive n (UnpackedFloat.ofNat .binary64 n) := by
  have hlog : n.log2 < 53 := (Nat.log2_lt hpos.ne').mpr hlt
  obtain ⟨k, hsum⟩ := Nat.exists_eq_add_of_le (Nat.le_of_lt_succ hlog)
  have hnormal : Normal (n * 2 ^ k) (-k) := by
    constructor
    · calc 2 ^ 52 = 2 ^ n.log2 * 2 ^ k := by rw [← pow_add, ← hsum]
        _ ≤ n * 2 ^ k := Nat.mul_le_mul_right _ (Nat.log2_self_le hpos.ne')
    · calc n * 2 ^ k < 2 ^ (n.log2 + 1) * 2 ^ k :=
            Nat.mul_lt_mul_of_pos_right Nat.lt_log2_self (Nat.two_pow_pos _)
        _ = 2 ^ 53 := by rw [← pow_add, Nat.add_right_comm, ← hsum]
    · omega
    · omega
  refine ⟨n * 2 ^ k, -k, hnormal, ?_, ?_⟩
  · have hcompare : compare (n : ℤ) 0 = .gt := by
      rw [compare_gt_iff_gt]
      omega
    have htarget : Format.binary64.targetExponent (totalExponent n 0) = -k := by
      have hleast : Format.binary64.minExponent = -1074 := rfl
      have hbits : Format.binary64.mantissaBits = 53 := rfl
      rw [Format.targetExponent, totalExponent, hleast, hbits]
      omega
    have hround : roundWithAccuracy .binary64 .positive (n * 2 ^ k) (-k) .exact
        = .finite .positive (n * 2 ^ k) (-k) hnormal.pos := by
      simpa using hnormal.roundWithAccuracy_shifted .positive 0
    simp [UnpackedFloat.ofNat, UnpackedFloat.ofInt, UnpackedFloat.normalize, hcompare,
      UnpackedFloat.round, decreaseExponent, htarget, Nat.shiftLeft_eq, hround]
  · rw [Nat.cast_mul, Nat.cast_pow, mul_assoc, Nat.cast_ofNat, ← zpow_natCast,
      ← zpow_add₀ (by norm_num)]
    simp

theorem isNormal_ofNat : IsNormal .positive n (Float.ofNat n).toModel.unpack := by
  have hproduct : Float.ofNat n
      = n.toUInt64.toFloat * Float.exactlyRepresentablePowersOfTen[0] := by
    have hfast : n < 2 ^ 53 ∧ 0 ≤ 22 := ⟨hlt, by decide⟩
    change Float.ofScientific n false 0 = _
    simp only [Float.ofScientific]
    rw [dif_pos hfast]
    rfl
  have hone : (Float.exactlyRepresentablePowersOfTen[0]).toModel.unpack
      = .finite .positive (2 ^ 52) (-52) (by decide) := rfl
  have hfactor : IsNormal .positive n (n.toUInt64.toFloat).toModel.unpack := by
    have hn : n.toUInt64.toNat = n := by
      rw [Nat.toUInt64_eq, UInt64.toNat_ofNat']
      omega
    have hmodel : (n.toUInt64.toFloat).toModel.unpack
        = unpack .binary64 (pack .binary64 (UnpackedFloat.ofNat .binary64 n.toUInt64.toNat)) := rfl
    rw [hmodel, hn]
    exact (isNormal_unpackedOfNat hpos hlt).unpack_pack
  have hmodel := hfactor.mul_one.unpack_pack
  rw [← hone] at hmodel
  rw [hproduct]
  exact hmodel

end

end Binary64

/-- An integer of at most 53 bits is a double. -/
theorem exactValue?_ofInt {i : Int} (hlow : -2 ^ 53 < i) (hhigh : i < 2 ^ 53) :
    exactValue? (Float.ofInt i) = some (i : ℚ) := by
  cases i with
  | ofNat n =>
      rw [Int.ofNat_eq_natCast] at hhigh
      rcases Nat.eq_zero_or_pos n with rfl | hpos
      · rfl
      · have hnormal := Binary64.isNormal_ofNat hpos (by omega)
        exact hnormal.unpackedValue?_positive
  | negSucc n =>
      have hnormal := (Binary64.isNormal_ofNat (Nat.succ_pos n) (by omega)).neg.unpack_pack
      exact hnormal.unpackedValue?_negative.trans (by simp)

/-- Every integer of 32 bits is a double. -/
theorem exactValue?_ofInteger (i : Int32) : exactValue? (ofInteger i) = some (i.toInt : ℚ) := by
  have hlow := i.le_toInt
  have hhigh := i.toInt_lt
  exact exactValue?_ofInt (by omega) (by omega)

theorem ofInteger_beq_zero_iff (i : Int32) : (ofInteger i == 0.0) = true ↔ i = 0 := by
  rw [beq_zero_iff, exactValue?_ofInteger]
  simp [← Int32.toInt_inj]

end LslFront
