import Mathlib.Data.Nat.Cast.Field
import Mathlib.Data.Rat.Floor
import PullAlgebra.Column
import PullAlgebra.Proofs.Value.CorrectRounding

/-!
# PullAlgebra.Proofs.Value.WholeDoubles

The doubles that an integer column takes: those that are integers of 64 bits. The bounds are
compared as doubles, where the upper one is rounded up to `2^63`, which is the first integer that is
too great, and the lower one is exact. No double lies between the greatest integer and `2^63`, so
the integer behind the double is cut off at neither end.

* `Binary64.encoded`: the number that 64 bits encode.
* `Binary64.fraction_eq_zero_iff`: nothing is left behind the point.
* `Binary64.whole?_eq_some_iff`: the doubles that are integers of 64 bits.
* `ColumnType.whole_doubles`: what an integer column keeps of a double.
-/

namespace PullAlgebra

namespace Dyadic

variable {d : Dyadic} {k : Nat}

theorem magnitude_of_natCast (h : d.exponent = k) :
    d.magnitude = (d.significand * 2 ^ k : Nat) := by
  rw [magnitude, h, zpow_natCast]
  push_cast
  rfl

theorem magnitude_of_neg (h : d.exponent = -k) :
    d.magnitude = d.significand / (2 ^ k : Nat) := by
  rw [magnitude, h, zpow_neg, zpow_natCast, div_eq_mul_inv]
  push_cast
  rfl

@[simp] theorem magnitude_zero (negative : Bool) (e : Int) : magnitude ⟨negative, 0, e⟩ = 0 := by
  simp [magnitude]

theorem number_eq_zero_iff : d.number = 0 ↔ d.magnitude = 0 := by
  unfold number
  split <;> simp

/-- An exponent is a power to multiply by or one to divide by. -/
theorem exponent_cases (d : Dyadic) :
    (∃ k : Nat, d.exponent = k) ∨ ∃ k : Nat, 0 < k ∧ d.exponent = -k := by
  rcases Int.lt_or_le d.exponent 0 with below | above
  · exact .inr ⟨(-d.exponent).toNat, by omega, by omega⟩
  · exact .inl ⟨d.exponent.toNat, by omega⟩

/-- What stands behind the point of the magnitude. -/
theorem fraction_ratio (d : Dyadic) :
    ((d.fraction.significand <<< d.fraction.exponent.toNat : Nat) : ℚ) /
      (1 <<< (-d.fraction.exponent).toNat : Nat) = Int.fract d.magnitude := by
  dsimp only [fraction]
  rcases d.exponent_cases with ⟨k, h⟩ | ⟨k, positive, h⟩
  · rw [magnitude_of_natCast h, Int.fract_natCast, if_pos (by omega), Nat.zero_shiftLeft,
      Nat.cast_zero, zero_div]
  · have none : (-(k : Int)).toNat = 0 := by omega
    have bits : (-(-(k : Int))).toNat = k := by omega
    rw [magnitude_of_neg h, Int.fract_div_natCast_eq_div_natCast_mod, if_neg (by omega), h, none,
      bits, Nat.shiftLeft_zero, Nat.one_shiftLeft]

theorem fract_number (d : Dyadic) : Int.fract d.number = 0 ↔ Int.fract d.magnitude = 0 := by
  unfold number
  split
  · exact Int.fract_neg_eq_zero
  · rfl

/-- The least double is the unit of what stands behind the point. -/
theorem fract_zero_or_ge (c : d.Canonical) :
    Int.fract d.magnitude = 0 ∨ (2 : ℚ) ^ (-1074 : ℤ) ≤ Int.fract d.magnitude := by
  have least := c.least
  rcases d.exponent_cases with ⟨k, h⟩ | ⟨k, positive, h⟩
  · left
    rw [magnitude_of_natCast h, Int.fract_natCast]
  · rw [magnitude_of_neg h, Int.fract_div_natCast_eq_div_natCast_mod]
    rcases Nat.eq_zero_or_pos (d.significand % 2 ^ k) with nothing | something
    · left
      rw [nothing, Nat.cast_zero, zero_div]
    · right
      calc (2 : ℚ) ^ (-1074 : ℤ) ≤ 2 ^ (-k : ℤ) := zpow_le_zpow_right₀ one_le_two (by omega)
        _ = 1 / (2 ^ k : Nat) := by rw [zpow_neg, zpow_natCast, one_div]; push_cast; rfl
        _ ≤ (d.significand % 2 ^ k : Nat) / (2 ^ k : Nat) := by
          gcongr
          exact_mod_cast something

/-- Where nothing stands behind the point, what stands before it is the number. -/
theorem truncated_eq (whole : Int.fract d.magnitude = 0) : (d.truncated : ℚ) = d.number := by
  have magnitude : ((if 0 ≤ d.exponent then d.significand <<< d.exponent.toNat
      else d.significand >>> (-d.exponent).toNat : Nat) : ℚ) = d.magnitude := by
    rcases d.exponent_cases with ⟨k, h⟩ | ⟨k, positive, h⟩
    · rw [magnitude_of_natCast h, if_pos (by omega), Nat.shiftLeft_eq, h, Int.toNat_natCast]
    · rw [magnitude_of_neg h, Int.fract_div_natCast_eq_div_natCast_mod] at whole
      have nothing : d.significand % 2 ^ k = 0 := by simpa using whole
      have bits : (-d.exponent).toNat = k := by omega
      rw [magnitude_of_neg h, if_neg (by omega), bits, Nat.shiftRight_eq_div_pow,
        Nat.cast_div (Nat.dvd_of_mod_eq_zero nothing) (by positivity)]
  rw [truncated, number]
  split <;> push_cast [← magnitude] <;> rfl

end Dyadic

namespace Binary64

open Float.Model (UnpackedFloat)
open Float.Model.UnpackedFloat Float.Model.Format

variable {x : Float} {d : Dyadic} {bits : UInt64}

/-! ## Behind the point -/

theorem decode?_zero : decode? 0 = some ⟨false, 0, -1074⟩ := by decide +kernel

theorem one_lt_overflow : 1 < overflow := by
  refine lt_of_lt_of_le ?_ le_overflow
  exact one_lt_zpow₀ one_lt_two (by decide)

/-- Zero is nearest to no number that is not below the least positive double. -/
theorem NearestTo.magnitude_eq_zero_iff {negative : Bool} {q : ℚ} (h : NearestTo negative q d)
    (far : q = 0 ∨ (2 : ℚ) ^ (-1074 : ℤ) ≤ q) : d.magnitude = 0 ↔ q = 0 := by
  constructor
  · intro none
    refine far.resolve_right fun far => ?_
    have unit : (0 : ℚ) < 2 ^ (-1074 : ℤ) := zpow_pos two_pos _
    have least : decode? (Float.ofBits 1) = some ⟨false, 1, -1074⟩ := by decide +kernel
    have nearer := h.nearest _ _ least
    rw [none, Dyadic.magnitude, Nat.cast_one, one_mul, zero_sub, abs_neg,
      abs_of_nonneg (unit.le.trans far), abs_sub_comm, abs_of_nonneg (sub_nonneg.2 far)] at nearer
    linarith
  · rintro rfl
    have nearer := h.nearest _ _ decode?_zero
    rw [sub_zero, Dyadic.magnitude_zero, sub_zero, abs_zero] at nearer
    exact abs_nonpos_iff.1 nearer

theorem fraction_eq_zero_iff (h : decode? x = some d) :
    fraction x == 0 ↔ Int.fract d.number = 0 := by
  obtain ⟨canonical, -⟩ := canonical_of_decode? h
  have ratio := d.fraction_ratio
  have below : Int.fract d.magnitude < overflow := (Int.fract_lt_one _).trans one_lt_overflow
  rw [← ratio] at below
  have positive : 0 < 1 <<< (-d.fraction.exponent).toNat := by
    rw [Nat.one_shiftLeft]
    positivity
  obtain ⟨f, decoded, nearest⟩ := exists_nearest d.negative _ positive below
  rw [ratio] at nearest
  have zero : Dyadic.number ⟨false, 0, -1074⟩ = 0 := by simp [Dyadic.number]
  have rest : decode? (fraction x) = some f := by
    simp only [fraction, h]
    exact decoded
  rw [beq_iff_number rest decode?_zero, zero, Dyadic.number_eq_zero_iff,
    nearest.magnitude_eq_zero_iff (Dyadic.fract_zero_or_ge canonical), Dyadic.fract_number]

/-! ## The bounds -/

theorem decode?_lower :
    decode? (ofInt Int64.minValue.toInt) = some ⟨true, 0x10000000000000, 11⟩ := by
  decide +kernel

/-- The greatest integer is rounded up. -/
theorem decode?_upper :
    decode? (ofInt Int64.maxValue.toInt) = some ⟨false, 0x10000000000000, 11⟩ := by
  decide +kernel

theorem lower_le_iff (h : decode? x = some d) :
    ofInt Int64.minValue.toInt ≤ x ↔ -2 ^ 63 ≤ d.number := by
  have bound : Dyadic.number ⟨true, 0x10000000000000, 11⟩ = -2 ^ 63 := by
    norm_num [Dyadic.number, Dyadic.magnitude]
  rw [le_iff_number decode?_lower h, bound]

theorem lt_upper_iff (h : decode? x = some d) :
    x < ofInt Int64.maxValue.toInt ↔ d.number < 2 ^ 63 := by
  have bound : Dyadic.number ⟨false, 0x10000000000000, 11⟩ = 2 ^ 63 := by
    norm_num [Dyadic.number, Dyadic.magnitude]
  rw [lt_iff_number h decode?_upper, bound]

/-- Within the bounds the integer before the point is cut off at neither of them. -/
theorem toInt64_eq (h : decode? x = some d) (whole : Int.fract d.number = 0)
    (lower : -2 ^ 63 ≤ d.number) (upper : d.number < 2 ^ 63) :
    ((toInt64 x).toInt : ℚ) = d.number := by
  have exact := Dyadic.truncated_eq (d.fract_number.1 whole)
  rw [← exact] at lower upper ⊢
  have least : Int64.minValue.toInt ≤ d.truncated := by
    rw [Int64.toInt_minValue]
    exact_mod_cast lower
  have greatest : d.truncated ≤ Int64.maxValue.toInt := by
    have : d.truncated < 2 ^ 63 := by exact_mod_cast upper
    rw [Int64.toInt_maxValue]
    omega
  simp only [toInt64, h]
  rw [← @Int64.ofIntLE_eq_ofIntClamp _ least greatest, Int64.toInt_ofIntLE]

theorem whole?_eq_some_iff (h : decode? x = some d) {i : Int64} : whole? x = some i ↔
    (Int.fract d.number = 0 ∧ -2 ^ 63 ≤ d.number ∧ d.number < 2 ^ 63) ∧
      (i.toInt : ℚ) = d.number := by
  have accepted : (x.isFinite ∧ fraction x == 0 ∧ ofInt Int64.minValue.toInt ≤ x ∧
      x < ofInt Int64.maxValue.toInt) ↔
      Int.fract d.number = 0 ∧ -2 ^ 63 ≤ d.number ∧ d.number < 2 ^ 63 := by
    rw [fraction_eq_zero_iff h, lower_le_iff h, lt_upper_iff h]
    exact and_iff_right (isFinite_of_decode? h)
  rw [whole?, Option.ite_none_right_eq_some, accepted, Option.some.injEq]
  refine and_congr_right fun ⟨whole, lower, upper⟩ => ?_
  rw [← toInt64_eq h whole lower upper, Int.cast_inj, Int64.toInt_inj, eq_comm]

theorem whole?_of_not_isFinite (h : ¬x.isFinite) : whole? x = none := if_neg fun h' => h h'.1

/-! ## Encodings -/

/-- The number that 64 bits encode: a sign, a significand, whose leading one is not written, and a
power of two. Where no exponent bit is set there is no leading one, and where all are set there is
no number. -/
def encoded (bits : UInt64) : ℚ :=
  let significand : ℚ := fractionField bits / 2 ^ 52
  (if 0x8000000000000000 ≤ bits.toNat then -1 else 1) *
    if exponentField bits = 0 then significand * 2 ^ (-1022 : ℤ)
    else (1 + significand) * 2 ^ ((exponentField bits : ℤ) - 1023)

theorem exists_decode?_ofBits (h : exponentField bits ≠ 2047) :
    ∃ d, decode? (Float.ofBits bits) = some d ∧ d.number = encoded bits := by
  have point (e : ℤ) : (2 : ℚ) ^ (e + 52) = 2 ^ 52 * 2 ^ e := by
    rw [zpow_add₀ two_ne_zero, mul_comm]
    rfl
  have sign (d : Dyadic) : d.number = (if d.negative then -1 else 1) * d.magnitude := by
    unfold Dyadic.number
    split <;> simp
  unfold decode? encoded
  rw [toBits_ofBits fun top => absurd top h, if_neg h]
  dsimp only
  split
  case isTrue least =>
    refine ⟨_, rfl, ?_⟩
    rw [sign, Dyadic.magnitude, show (-1022 : ℤ) = -1074 + 52 from rfl, point]
    simp only [decide_eq_true_eq]
    field_simp
  case isFalse leading =>
    refine ⟨_, rfl, ?_⟩
    rw [sign, Dyadic.magnitude, show (exponentField bits : ℤ) - 1023 =
      exponentField bits - 1075 + 52 by ring, point]
    simp only [decide_eq_true_eq]
    push_cast
    field_simp
    norm_num

/-- A NaN may be one of many in the bits, but it is packed as one that is no number either. -/
theorem not_isFinite_ofBits (h : exponentField bits = 2047) : ¬(Float.ofBits bits).isFinite := by
  intro finite
  by_cases infinity : fractionField bits = 0
  · have survives : (Float.ofBits bits).toBits = bits := toBits_ofBits fun _ => infinity
    exact exponentField_of_isFinite finite (by rw [survives, h])
  · have nan : UnpackedFloat.unpack binary64 bits.toBitVec = .notANumber := by
      unfold UnpackedFloat.unpack
      dsimp only
      rw [if_pos ((unpackExponent_eq_iff bits (-1#11)).2 h),
        if_neg (mt (unpackMantissa_eq_zero_iff bits).1 infinity)]
    change (UnpackedFloat.unpack binary64
      (pack binary64 (UnpackedFloat.unpack binary64 bits.toBitVec))).isFinite = true at finite
    rw [nan] at finite
    cases finite

end Binary64

namespace ColumnType

open Binary64 (encoded exponentField)

theorem stored?_double_iff {x : Float} {v : Value} :
    integer.stored? (.float x) = some v ↔ ∃ i, Binary64.whole? x = some i ∧ v = .integer i := by
  simp [stored?, eq_comm]

/-- What an integer column keeps of the double with the given bits. -/
theorem stored?_ofBits_iff {bits : UInt64} {v : Value} :
    integer.stored? (.float (Float.ofBits bits)) = some v ↔
      (exponentField bits ≠ 2047 ∧ Int.fract (encoded bits) = 0 ∧ -2 ^ 63 ≤ encoded bits ∧
        encoded bits < 2 ^ 63) ∧ ∃ i : Int64, (i.toInt : ℚ) = encoded bits ∧ v = .integer i := by
  rw [stored?_double_iff]
  by_cases finite : exponentField bits = 2047
  · have refused := Binary64.whole?_of_not_isFinite (Binary64.not_isFinite_ofBits finite)
    simp [refused, finite]
  · obtain ⟨d, decoded, number⟩ := Binary64.exists_decode?_ofBits finite
    simp only [Binary64.whole?_eq_some_iff decoded, number, and_assoc, exists_and_left, ne_eq,
      finite, not_false_eq_true, true_and]

theorem exists_toInt_eq {q : ℚ} (whole : Int.fract q = 0) (lower : -2 ^ 63 ≤ q)
    (upper : q < 2 ^ 63) : ∃ i : Int64, (i.toInt : ℚ) = q := by
  obtain ⟨n, rfl⟩ := Int.fract_eq_zero_iff.1 whole
  have least : -2 ^ 63 ≤ n := by exact_mod_cast lower
  have greatest : n < 2 ^ 63 := by exact_mod_cast upper
  have range : Integer64.InRange n := by
    unfold Integer64.InRange
    omega
  exact ⟨Int64.ofInt n, by rw [Integer64.toInt_ofInt range]⟩

/-- An integer column keeps a double exactly if the double is finite, has nothing behind the point
and lies between the bounds, and it keeps the number itself. So two doubles that it keeps become the
same integer exactly if they are equal, as numbers and as doubles. -/
theorem whole_doubles :
    (∀ bits, (∃ v, integer.stored? (.float (Float.ofBits bits)) = some v) ↔
      exponentField bits ≠ 2047 ∧ Int.fract (encoded bits) = 0 ∧ -2 ^ 63 ≤ encoded bits ∧
        encoded bits < 2 ^ 63) ∧
    (∀ bits v, integer.stored? (.float (Float.ofBits bits)) = some v →
      ∃ i : Int64, v = .integer i ∧ (i.toInt : ℚ) = encoded bits) ∧
    ∀ bits bits' i j, integer.stored? (.float (Float.ofBits bits)) = some (.integer i) →
      integer.stored? (.float (Float.ofBits bits')) = some (.integer j) →
      (i = j ↔ encoded bits = encoded bits') ∧
        (i = j ↔ Float.ofBits bits == Float.ofBits bits') := by
  refine ⟨fun bits => ?_, fun bits v stored => ?_, fun bits bits' i j stored stored' => ?_⟩
  · simp only [stored?_ofBits_iff]
    constructor
    · rintro ⟨v, accepted, -⟩
      exact accepted
    · rintro ⟨finite, whole, lower, upper⟩
      obtain ⟨i, exact⟩ := exists_toInt_eq whole lower upper
      exact ⟨.integer i, ⟨finite, whole, lower, upper⟩, i, exact, rfl⟩
  · obtain ⟨-, i, exact, rfl⟩ := stored?_ofBits_iff.1 stored
    exact ⟨i, rfl, exact⟩
  · obtain ⟨⟨finite, -⟩, _, exact, ⟨⟩⟩ := stored?_ofBits_iff.1 stored
    obtain ⟨⟨finite', -⟩, _, exact', ⟨⟩⟩ := stored?_ofBits_iff.1 stored'
    have numbers : i = j ↔ encoded bits = encoded bits' := by
      rw [← exact, ← exact', Int.cast_inj, Int64.toInt_inj]
    obtain ⟨d, decoded, number⟩ := Binary64.exists_decode?_ofBits finite
    obtain ⟨d', decoded', number'⟩ := Binary64.exists_decode?_ofBits finite'
    refine ⟨numbers, ?_⟩
    rw [Binary64.beq_iff_number decoded decoded', number, number', numbers]

/-- The least integer is kept as it is, `2^63` is too great, and the two zeros are the same. -/
theorem extreme_doubles :
    (Int64.minValue.toInt : ℚ) = encoded 0xc3e0000000000000 ∧
      integer.stored? (.float (Float.ofBits 0x43e0000000000000)) = none ∧
      Float.ofBits 0 == Float.ofBits 0x8000000000000000 := by
  refine ⟨?_, ?_, ?_⟩
  · obtain ⟨i, kept, exact⟩ := whole_doubles.2.1 0xc3e0000000000000 (.integer Int64.minValue) rfl
    cases kept
    exact exact
  · rfl
  · exact ((whole_doubles.2.2 0 0x8000000000000000 0 0 rfl rfl).2).1 rfl

end ColumnType
end PullAlgebra
