import PullAlgebra.Decimal.Shortest
import PullAlgebra.Proofs.Value.Nearest

/-!
# PullAlgebra.Proofs.Value.Shortest

Decimal numbers and the doubles nearest to them. Where no power is formed the number is out of the
range of doubles, so the double depends on the sign and the value alone, and zeros at the end of the
coefficient do not matter. The digits of a double are looked for until they have it as their nearest
double, which its exact value has in any case.

* `toFloat_eq_nearest`: the double nearest to a ratio.
* `toFloat_congr`: equal numbers have the same double.
* `toFloat_ofDyadic`: the exact value of a double.
* `toFloat_of_shortest?`: the shortest digits of a double.
-/

namespace PullAlgebra
namespace Decimal

open Binary64

/-- The number without its sign. -/
def magnitude (d : Decimal) : ℚ := d.coefficient * 10 ^ d.exponent

theorem ratio_eq_magnitude (d : Decimal) :
    ((d.coefficient * 10 ^ d.exponent.toNat : Nat) : ℚ) / (10 ^ (-d.exponent).toNat : Nat) =
      d.magnitude :=
  ratio_eq 10 d.coefficient d.exponent

/-- Three binary digits make at most one decimal digit. -/
theorem lt_pow_log2 (n : Nat) : n < 10 ^ (n.log2 / 3 + 1) :=
  calc n < 2 ^ (n.log2 + 1) := Nat.lt_log2_self
    _ ≤ 2 ^ (3 * (n.log2 / 3 + 1)) := Nat.pow_le_pow_right (by decide) (by omega)
    _ = 8 ^ (n.log2 / 3 + 1) := Nat.pow_mul 2 3 _
    _ ≤ 10 ^ (n.log2 / 3 + 1) := Nat.pow_le_pow_left (by decide) _

theorem two_pow_lt_ten_pow : 2 ^ 1075 < 10 ^ 324 := by decide +kernel

theorem two_pow_le_ten_pow : 2 ^ 1024 ≤ 10 ^ 310 := by decide +kernel

theorem ten_zpow_pos (e : Int) : (0 : ℚ) < 10 ^ e := zpow_pos (by norm_num) e

theorem magnitude_lt_of_guard {d : Decimal}
    (h : (d.coefficient.log2 / 3 + 1 : Nat) + d.exponent ≤ -324) :
    d.magnitude < 2 ^ (-1075 : Int) := by
  have digits : (d.coefficient : ℚ) < 10 ^ (d.coefficient.log2 / 3 + 1) := by
    exact_mod_cast lt_pow_log2 d.coefficient
  have powers : (10 : ℚ) ^ (-324 : Int) < 2 ^ (-1075 : Int) := by
    rw [zpow_neg, zpow_neg, inv_lt_inv₀ (ten_zpow_pos _) (zpow_pos two_pos _)]
    exact_mod_cast two_pow_lt_ten_pow
  calc d.magnitude < 10 ^ (d.coefficient.log2 / 3 + 1) * 10 ^ d.exponent :=
        mul_lt_mul_of_pos_right digits (ten_zpow_pos _)
    _ = 10 ^ ((d.coefficient.log2 / 3 + 1 : Nat) + d.exponent) := by
      rw [zpow_add₀ (by norm_num), zpow_natCast]
    _ ≤ 10 ^ (-324 : Int) := zpow_le_zpow_right₀ (by norm_num) h
    _ < 2 ^ (-1075 : Int) := powers

theorem le_magnitude_of_guard {d : Decimal} (present : d.coefficient ≠ 0) (h : 310 ≤ d.exponent) :
    (2 : ℚ) ^ (1024 : Int) ≤ d.magnitude := by
  have positive : (1 : ℚ) ≤ d.coefficient := by exact_mod_cast Nat.one_le_iff_ne_zero.2 present
  calc (2 : ℚ) ^ (1024 : Int) ≤ 10 ^ (310 : Int) := by exact_mod_cast two_pow_le_ten_pow
    _ ≤ 10 ^ d.exponent := zpow_le_zpow_right₀ (by norm_num) h
    _ ≤ d.magnitude := le_mul_of_one_le_left (ten_zpow_pos _).le positive

/-- The numbers that are settled without a power are out of the range of doubles. -/
theorem toFloat_eq_nearest (d : Decimal) :
    d.toFloat = nearest d.negative (d.coefficient * 10 ^ d.exponent.toNat)
      (10 ^ (-d.exponent).toNat) := by
  have positive : 0 < 10 ^ (-d.exponent).toNat := by positivity
  unfold toFloat
  split
  case isTrue small =>
    rw [nearest]
    congr 1
    rcases small with none | small
    · rw [none, Nat.zero_mul, magnitudeBits_zero]
    · refine (magnitudeBits_of_tiny positive ?_).symm
      rw [ratio_eq_magnitude]
      exact magnitude_lt_of_guard small
  case isFalse present =>
    split
    case isTrue large =>
      rw [nearest]
      congr 1
      refine (magnitudeBits_of_huge positive ?_).symm
      rw [ratio_eq_magnitude]
      exact le_magnitude_of_guard (fun none => present (.inl none)) large
    case isFalse => rfl

theorem toFloat_congr {d d' : Decimal} (sign : d.negative = d'.negative)
    (same : d.magnitude = d'.magnitude) : d.toFloat = d'.toFloat := by
  rw [toFloat_eq_nearest, toFloat_eq_nearest, nearest, nearest, sign]
  congr 1
  refine magnitudeBits_congr (by positivity) (by positivity) ?_
  rw [ratio_eq_magnitude, ratio_eq_magnitude, same]

/-! ## The digits of a double -/

theorem magnitude_ofDyadic (d : Dyadic) : (ofDyadic d).magnitude = d.magnitude := by
  unfold ofDyadic
  split
  case isTrue whole =>
    obtain ⟨i, hi⟩ := Int.eq_ofNat_of_zero_le whole
    simp [magnitude, Dyadic.magnitude, hi, Nat.shiftLeft_eq]
  case isFalse fraction =>
    obtain ⟨i, hi⟩ := Int.eq_ofNat_of_zero_le (show 0 ≤ -d.exponent by omega)
    have back : d.exponent = -(i : Int) := by omega
    have powers : (5 : ℚ) ^ i * (10 ^ i)⁻¹ = (2 ^ i)⁻¹ := by
      rw [show (10 : ℚ) = 5 * 2 by norm_num, mul_pow, mul_inv, ← mul_assoc,
        mul_inv_cancel₀ (by positivity), one_mul]
    simp [magnitude, Dyadic.magnitude, back, mul_assoc, powers]

theorem negative_ofDyadic (d : Dyadic) : (ofDyadic d).negative = d.negative := by
  unfold ofDyadic
  split <;> rfl

theorem toFloat_ofDyadic {x : Float} {d : Dyadic} (h : decode? x = some d) :
    (ofDyadic d).toFloat = x := by
  rw [toFloat_eq_nearest, negative_ofDyadic]
  refine nearest_of_decode? h (by positivity) ?_
  rw [ratio_eq_magnitude, magnitude_ofDyadic]

theorem stripZeros_spec (d : Decimal) :
    d.stripZeros.negative = d.negative ∧ d.stripZeros.magnitude = d.magnitude := by
  fun_induction stripZeros d with
  | case1 d trailing ih =>
    have tenfold : d.coefficient = d.coefficient / 10 * 10 := by omega
    refine ⟨ih.1, ih.2.trans ?_⟩
    rw [magnitude, magnitude, tenfold, Nat.mul_div_cancel _ (by decide), Nat.cast_mul,
      zpow_add_one₀ (by norm_num), mul_assoc, mul_comm (10 ^ d.exponent), Nat.cast_ofNat]
  | case2 d => exact ⟨rfl, rfl⟩

theorem toFloat_stripZeros (d : Decimal) : d.stripZeros.toFloat = d.toFloat :=
  toFloat_congr (stripZeros_spec d).1 (stripZeros_spec d).2

theorem toFloat_of_onGrid? {x : Float} {exact d : Decimal} {drop : Nat}
    (h : onGrid? x exact drop = some d) : d.toFloat = x := by
  unfold onGrid? at h
  dsimp only at h
  split at h
  · cases h; assumption
  · split at h
    · cases h; assumption
    · cases h

theorem toFloat_shortestFrom {x : Float} {exact : Decimal} (h : exact.toFloat = x) (drop : Nat) :
    (shortestFrom x exact drop).toFloat = x := by
  induction drop with
  -- without a shorter grid the exact value remains, which reads back
  | zero => exact h
  | succ drop ih =>
    rw [shortestFrom]
    cases found : onGrid? x exact (drop + 1) with
    | none => exact ih
    | some d => exact toFloat_of_onGrid? found

/-- The shortest digits of a double have it as their nearest double. -/
theorem toFloat_of_shortest? {x : Float} {d : Decimal} (h : shortest? x = some d) :
    d.toFloat = x := by
  obtain ⟨exact, decoded, rfl⟩ := Option.map_eq_some_iff.1 h
  rw [toFloat_stripZeros, toFloat_shortestFrom (toFloat_ofDyadic decoded)]

end Decimal
end PullAlgebra
