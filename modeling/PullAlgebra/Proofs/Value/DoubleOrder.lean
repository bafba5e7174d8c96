import PullAlgebra.Proofs.Value.Comparison

/-!
# PullAlgebra.Proofs.Value.DoubleOrder

The order of the doubles in the integers. The bits of a double, sign aside, grow with its magnitude:
the exponent stands in front of the fraction, and infinity has the greatest exponent of all. Taken
with the sign of the double they are an integer that tells how it compares with the others.

* `rank`: that integer; both zeros have the same.
* `Unpacked`: the kinds of bits and what they unpack to.
* `place`: the rank of an unpacked double, by its exponent and significand.
* `compare_eq_place`, `compareFloats?_eq_rank`: doubles that are numbers compare like their ranks.
-/

namespace PullAlgebra
namespace Binary64

open Float.Model (UnpackedFloat)
open Float.Model.UnpackedFloat Float.Model.Format

/-- The bits of a double without its sign bit, as a number. -/
def magnitudeField (bits : UInt64) : Nat := bits.toNat % 0x8000000000000000

/-- The sign of a double, from its topmost bit. -/
def signField (bits : UInt64) : Sign := Sign.ofBitVec (@unpackSign binary64 bits.toBitVec)

/-- The bits without the sign bit, with the sign of the double. -/
def rank (x : Float) : Int := (signField x.toBits).apply (magnitudeField x.toBits)

theorem magnitudeField_eq (bits : UInt64) :
    magnitudeField bits = exponentField bits * 0x10000000000000 + fractionField bits := by
  rw [magnitudeField, exponentField, fractionField, Nat.shiftRight_eq_div_pow]
  omega

theorem signField_eq (bits : UInt64) :
    signField bits = if 0x8000000000000000 ≤ bits.toNat then .negative else .positive := by
  have top : (@unpackSign binary64 bits.toBitVec).toNat = bits.toNat >>> 63 % 2 := rfl
  have bound := bits.toNat_lt
  rw [Nat.shiftRight_eq_div_pow] at top
  by_cases negative : 0x8000000000000000 ≤ bits.toNat
  · have set : @unpackSign binary64 bits.toBitVec ≠ 0#1 := by
      intro unset
      rw [unset, BitVec.toNat_ofNat] at top
      omega
    rw [if_pos negative, signField, Sign.ofBitVec, if_neg set]
  · have unset : @unpackSign binary64 bits.toBitVec = 0#1 := by
      apply BitVec.eq_of_toNat_eq
      rw [top, BitVec.toNat_ofNat]
      omega
    rw [if_neg negative, signField, Sign.ofBitVec, if_pos unset]

/-! ## Unpacked doubles -/

/-- What 64 bits unpack to, by the exponent and the fraction in them. -/
inductive Unpacked (bits : UInt64) : UnpackedFloat → Prop
  | notANumber : Unpacked bits .notANumber
  | infinity (exponent : exponentField bits = 2047) (fraction : fractionField bits = 0) :
      Unpacked bits (.infinity (signField bits))
  | zero (exponent : exponentField bits = 0) (fraction : fractionField bits = 0) :
      Unpacked bits (.zero (signField bits))
  | subnormal {m : Nat} {e : Int} {positive : 0 < m} (exponent : exponentField bits = 0)
      (significand : m = fractionField bits) (least : e = -1074) :
      Unpacked bits (.finite (signField bits) m e positive)
  | normal {m : Nat} {e : Int} {positive : 0 < m} (lower : 0 < exponentField bits)
      (upper : exponentField bits < 2047)
      (significand : m = 0x10000000000000 + fractionField bits)
      (exponent : e = exponentField bits - 1075) :
      Unpacked bits (.finite (signField bits) m e positive)

theorem unpacked (bits : UInt64) : Unpacked bits (UnpackedFloat.unpack binary64 bits.toBitVec) := by
  have below := exponentField_lt bits
  unfold UnpackedFloat.unpack
  dsimp only
  by_cases top : @unpackExponent binary64 bits.toBitVec = -1#11
  · rw [if_pos top]
    by_cases none : @unpackMantissa binary64 bits.toBitVec = 0#52
    · rw [if_pos none]
      exact .infinity ((unpackExponent_eq_iff bits _).1 top) ((unpackMantissa_eq_zero_iff bits).1 none)
    · rw [if_neg none]
      exact .notANumber
  · rw [if_neg top]
    by_cases low : @unpackExponent binary64 bits.toBitVec = 0#11
    · have zero : exponentField bits = 0 := (unpackExponent_eq_iff bits _).1 low
      rw [if_pos low]
      by_cases none : @unpackMantissa binary64 bits.toBitVec = 0#52
      · rw [dif_pos none]
        exact .zero zero ((unpackMantissa_eq_zero_iff bits).1 none)
      · rw [dif_neg none]
        refine .subnormal zero (toNat_unpackMantissa bits) ?_
        rw [low]
        rfl
    · have lower : exponentField bits ≠ 0 := fun h => low ((unpackExponent_eq_iff bits _).2 h)
      have upper : exponentField bits ≠ 2047 := fun h => top ((unpackExponent_eq_iff bits _).2 h)
      have significand : (1#1 ++ @unpackMantissa binary64 bits.toBitVec).toNat =
          0x10000000000000 + fractionField bits := by
        rw [← toNat_unpackMantissa bits, BitVec.toNat_append, ← Nat.shiftLeft_add_eq_or_of_lt
          (@unpackMantissa binary64 bits.toBitVec).isLt]
        rfl
      rw [if_neg low]
      exact .normal (by omega) (by omega) significand rfl

/-- The place of an unpacked double among the others. The leading bit of the significand counts as
one more in the exponent. -/
def place : UnpackedFloat → Int
  | .infinity s => s.apply (2047 * 0x10000000000000)
  | .notANumber | .zero _ => 0
  | .finite s m e _ => s.apply ((e + 1074) * 0x10000000000000 + m)

/-- The bounds of exponents and significands. Only at the least exponent can the leading bit be
missing. -/
def Canonical : UnpackedFloat → Prop
  | .finite _ m e _ =>
    -1074 ≤ e ∧ e ≤ 971 ∧ m < 0x20000000000000 ∧ (0x10000000000000 ≤ m ∨ e = -1074)
  | _ => True

theorem Unpacked.canonical {bits : UInt64} {u : UnpackedFloat} (h : Unpacked bits u) :
    Canonical u := by
  have below := fractionField_lt bits
  cases h with
  | notANumber | infinity | zero => trivial
  | subnormal | normal =>
    dsimp only [Canonical]
    omega

theorem Unpacked.place_eq {bits : UInt64} {u : UnpackedFloat} (h : Unpacked bits u)
    (number : u ≠ .notANumber) : place u = (signField bits).apply (magnitudeField bits) := by
  rw [magnitudeField_eq]
  cases h with
  | notANumber => exact absurd rfl number
  | infinity exponent fraction => rw [exponent, fraction]; rfl
  | zero exponent fraction =>
    rw [exponent, fraction]
    cases signField bits <;> rfl
  | subnormal exponent significand least =>
    change (signField bits).apply _ = _
    rw [exponent, significand, least]
    congr 1
  | normal lower _ significand exponent =>
    change (signField bits).apply _ = _
    rw [significand, exponent]
    congr 1
    omega

/-! ## Comparing -/

/-- Of two significands with their exponents the one with the greater exponent is the greater one,
as only at the least exponent the leading bit can be missing. -/
theorem compare_then_eq {m m' : Nat} {e e' : Int} {s s' : Sign} {h : 0 < m} {h' : 0 < m'}
    (c : Canonical (.finite s m e h)) (c' : Canonical (.finite s' m' e' h')) :
    (compare e e').then (compare m m') =
      compare ((e + 1074) * 0x10000000000000 + m) ((e' + 1074) * 0x10000000000000 + m') := by
  obtain ⟨low, -, bound, leading⟩ := c
  obtain ⟨low', -, bound', leading'⟩ := c'
  rcases Int.lt_trichotomy e e' with less | rfl | greater
  · rw [Int.compare_eq_lt.2 less, Int.compare_eq_lt.2 (by omega)]
    rfl
  · rw [Int.compare_eq_eq.2 rfl]
    rcases Nat.lt_trichotomy m m' with less | rfl | greater
    · rw [Nat.compare_eq_lt.2 less, Int.compare_eq_lt.2 (by omega)]
      rfl
    · rw [Nat.compare_eq_eq.2 rfl, Int.compare_eq_eq.2 rfl]
      rfl
    · rw [Nat.compare_eq_gt.2 greater, Int.compare_eq_gt.2 (by omega)]
      rfl
  · rw [Int.compare_eq_gt.2 greater, Int.compare_eq_gt.2 (by omega)]
    rfl

theorem compare_neg (m n : Int) : compare (-m) (-n) = (compare m n).swap := by
  rcases Int.lt_trichotomy m n with less | rfl | greater
  · rw [Int.compare_eq_lt.2 less, Int.compare_eq_gt.2 (by omega)]
    rfl
  · rw [Int.compare_eq_eq.2 rfl, Int.compare_eq_eq.2 rfl]
    rfl
  · rw [Int.compare_eq_gt.2 greater, Int.compare_eq_lt.2 (by omega)]
    rfl

theorem compare_eq_place {u v : UnpackedFloat} (cu : Canonical u) (cv : Canonical v)
    (nu : u ≠ .notANumber) (nv : v ≠ .notANumber) :
    u.compare v = some (compare (place u) (place v)) := by
  rcases u with (_ | _) | _ | _ | ⟨_ | _, m, e, h⟩ <;>
    rcases v with (_ | _) | _ | _ | ⟨_ | _, m', e', h'⟩
  case finite.positive.finite.positive => exact congrArg some (compare_then_eq cu cv)
  case finite.negative.finite.negative =>
    refine congrArg some ?_
    rw [compare_then_eq cu cv]
    exact (compare_neg _ _).symm
  -- the others differ in sign, or one is an infinity or a zero
  all_goals
    first
      | exact absurd rfl nu
      | exact absurd rfl nv
      | rfl
      | dsimp only [Canonical] at cu cv
        first
          | exact congrArg some (Int.compare_eq_lt.2 (by dsimp only [place, Sign.apply]; omega)).symm
          | exact congrArg some (Int.compare_eq_gt.2 (by dsimp only [place, Sign.apply]; omega)).symm

theorem number_iff {x : Float} : ¬x.isNaN ↔ x.toModel.unpack ≠ .notANumber := by
  change ¬x.toModel.unpack.isNaN ↔ _
  cases x.toModel.unpack with
  | notANumber => exact ⟨fun number => absurd rfl number, fun number => absurd rfl number⟩
  | infinity | zero | finite => constructor <;> rintro - ⟨⟩

/-- Doubles that are numbers compare like their ranks. -/
theorem compareFloats?_eq_rank {x y : Float} (hx : ¬x.isNaN) (hy : ¬y.isNaN) :
    compareFloats? x y = some (compare (rank x) (rank y)) := by
  have ux := unpacked x.toBits
  have uy := unpacked y.toBits
  rw [number_iff] at hx hy
  rw [compareFloats?_eq, rank, rank, ← ux.place_eq hx, ← uy.place_eq hy]
  exact compare_eq_place ux.canonical uy.canonical hx hy

theorem beq_iff_rank {x y : Float} (hx : ¬x.isNaN) (hy : ¬y.isNaN) : x == y ↔ rank x = rank y := by
  rw [beq_iff, ← compareFloats?_eq, compareFloats?_eq_rank hx hy, Option.some.injEq,
    Int.compare_eq_eq]

end Binary64
end PullAlgebra
