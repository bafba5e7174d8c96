/-!
# PullAlgebra.Binary64.Bits

A double and its 64 bits determine each other: a sign bit, eleven exponent bits and 52 fraction
bits. The exponent bits are all set for infinities and NaNs only, and a NaN has one canonical form.

* `toBits_ofBits`: bits that do not encode a NaN survive the way through a double.
* `isFinite_ofBits`: a double is finite unless all its exponent bits are set.
-/

namespace PullAlgebra
namespace Binary64

open Float.Model (UnpackedFloat)
open Float.Model.UnpackedFloat Float.Model.Format

/-- The exponent bits, as a number. -/
def exponentField (bits : UInt64) : Nat := (bits.toNat >>> 52) % 2048

/-- The fraction bits, as a number. -/
def fractionField (bits : UInt64) : Nat := bits.toNat % 0x10000000000000

theorem toNat_unpackExponent (bits : UInt64) :
    (@unpackExponent binary64 bits.toBitVec).toNat = exponentField bits := by
  rfl

theorem toNat_unpackMantissa (bits : UInt64) :
    (@unpackMantissa binary64 bits.toBitVec).toNat = fractionField bits := by
  rfl

theorem exponentField_lt (bits : UInt64) : exponentField bits < 2048 :=
  Nat.mod_lt _ (by decide)

theorem fractionField_lt (bits : UInt64) : fractionField bits < 0x10000000000000 :=
  Nat.mod_lt _ (by decide)

theorem unpackExponent_eq_iff (bits : UInt64) (e : BitVec 11) :
    @unpackExponent binary64 bits.toBitVec = e ↔ exponentField bits = e.toNat := by
  rw [← toNat_unpackExponent]
  exact (BitVec.toNat_inj (x := @unpackExponent binary64 bits.toBitVec)).symm

theorem unpackMantissa_eq_zero_iff (bits : UInt64) :
    @unpackMantissa binary64 bits.toBitVec = 0#52 ↔ fractionField bits = 0 := by
  rw [← toNat_unpackMantissa]
  exact (BitVec.toNat_inj (x := @unpackMantissa binary64 bits.toBitVec)).symm

theorem toBitVec_ofBitVec (b : BitVec 1) : (Sign.ofBitVec b).toBitVec = b := by
  revert b; decide

theorem fields_append (b : BitVec 64) :
    BitVec.extractLsb 63 63 b ++ BitVec.extractLsb 62 52 b ++ BitVec.extractLsb 51 0 b = b := by
  apply BitVec.eq_of_getLsbD_eq
  intro i hi
  simp only [BitVec.getLsbD_append, BitVec.getLsbD_extractLsb]
  by_cases h : i < 52
  · simp [h]
  · by_cases h' : i < 63
    · have low : i - 52 < 11 := by omega
      have back : 52 + (i - 52) = i := by omega
      simp [h, low, back]
    · obtain rfl : i = 63 := by omega
      simp

theorem packComponents_unpack (b : BitVec 64) :
    packComponents binary64 (Sign.ofBitVec (@unpackSign binary64 b))
      (@unpackExponent binary64 b) (@unpackMantissa binary64 b) = b := by
  unfold packComponents
  rw [toBitVec_ofBitVec]
  exact fields_append b

theorem packComponents_eq {b : BitVec 64} {e : BitVec 11} {m : BitVec 52}
    (he : @unpackExponent binary64 b = e) (hm : @unpackMantissa binary64 b = m) :
    packComponents binary64 (Sign.ofBitVec (@unpackSign binary64 b)) e m = b := by
  subst he hm; exact packComponents_unpack b

/-- Packing undoes unpacking on all bits that are not a NaN. -/
theorem pack_unpack (bits : UInt64) (h : exponentField bits = 2047 → fractionField bits = 0) :
    pack binary64 (UnpackedFloat.unpack binary64 bits.toBitVec) = bits.toBitVec := by
  have hexp := toNat_unpackExponent bits
  have hfrac := toNat_unpackMantissa bits
  have helt := exponentField_lt bits
  have hflt := fractionField_lt bits
  unfold UnpackedFloat.unpack
  dsimp only
  by_cases he : @unpackExponent binary64 bits.toBitVec = -1#11
  · have hm := (unpackMantissa_eq_zero_iff bits).2 (h ((unpackExponent_eq_iff bits _).1 he))
    rw [if_pos he, if_pos hm]
    exact packComponents_eq he hm
  have hne : exponentField bits ≠ 2047 := fun e => he ((unpackExponent_eq_iff bits _).2 e)
  rw [if_neg he]
  by_cases hz : @unpackExponent binary64 bits.toBitVec = 0#11
  · rw [if_pos hz]
    by_cases hm : @unpackMantissa binary64 bits.toBitVec = 0#52
    · rw [dif_pos hm]
      exact packComponents_eq hz hm
    · have hpos : fractionField bits ≠ 0 := fun e => hm ((unpackMantissa_eq_zero_iff bits).2 e)
      have hlog : ¬ (fractionField bits).log2 + 1 = binary64.mantissaBits := by
        have : (fractionField bits).log2 < 52 := (Nat.log2_lt hpos).2 hflt
        have : binary64.mantissaBits = 53 := by decide
        omega
      rw [dif_neg hm]
      unfold pack
      dsimp only
      rw [hz, hfrac, if_neg (by decide), if_neg hlog]
      refine packComponents_eq hz ?_
      rw [← hfrac, BitVec.ofNat_toNat, BitVec.setWidth_eq]
  · have happ : (1#1 ++ @unpackMantissa binary64 bits.toBitVec).toNat =
        0x10000000000000 + fractionField bits := by
      rw [← hfrac, BitVec.toNat_append, ← Nat.shiftLeft_add_eq_or_of_lt
        (@unpackMantissa binary64 bits.toBitVec).isLt]
      rfl
    have hlog : (0x10000000000000 + fractionField bits).log2 + 1 = binary64.mantissaBits := by
      have : (0x10000000000000 + fractionField bits).log2 = 52 := by
        rw [Nat.log2_eq_iff (by omega)]; omega
      rw [this]; decide
    have hback : ((exponentField bits : Int) -
        ((binary64.exponentBias : Int) + (binary64.mantissaBitsWithoutImplicit : Nat)) +
        (binary64.exponentBias : Int) + (binary64.mantissaBitsWithoutImplicit : Nat)).toNat =
        exponentField bits := by
      omega
    rw [if_neg hz]
    unfold pack
    dsimp only
    rw [happ, hexp, hback, if_pos hlog, if_neg (by change ¬ 2048 ≤ _; omega)]
    refine packComponents_eq ?_ ?_
    · rw [← hexp, BitVec.ofNat_toNat, BitVec.setWidth_eq]
    · apply BitVec.eq_of_toNat_eq
      rw [hfrac, BitVec.toNat_ofNat]
      change _ = _ % 0x10000000000000
      omega

theorem toBits_ofBits {bits : UInt64} (h : exponentField bits = 2047 → fractionField bits = 0) :
    (Float.ofBits bits).toBits = bits :=
  congrArg UInt64.ofBitVec (pack_unpack bits h)

theorem isFinite_ofBits {bits : UInt64} (h : exponentField bits ≠ 2047) :
    (Float.ofBits bits).isFinite := by
  have repacked := congrArg (fun b => (UnpackedFloat.unpack binary64 b).isFinite)
    (pack_unpack bits fun e => absurd e h)
  refine Eq.trans repacked ?_
  have he : @unpackExponent binary64 bits.toBitVec ≠ -1#11 :=
    fun e => h ((unpackExponent_eq_iff bits _).1 e)
  unfold UnpackedFloat.unpack
  dsimp only
  rw [if_neg he]
  by_cases hz : @unpackExponent binary64 bits.toBitVec = 0#11
  · rw [if_pos hz]
    by_cases hm : @unpackMantissa binary64 bits.toBitVec = 0#52
    · rw [dif_pos hm]; rfl
    · rw [dif_neg hm]; rfl
  · rw [if_neg hz]; rfl

end Binary64
end PullAlgebra
