import Mathlib.Algebra.Order.Field.Basic
import Mathlib.Data.Int.Log
import Mathlib.Data.Rat.Floor
import PullAlgebra.Proofs.Value.Rounding

/-!
# PullAlgebra.Proofs.Value.Nearest

The double nearest to a ratio. It depends on the value of the ratio alone, as the exponent is the
binary logarithm of that value and a quotient is rounded the same after both sides are multiplied by
one number. A double is nearest to its own value, so nothing is lost when it is written out exactly.

* `ratio_eq`: ratios whose sides are multiplied by powers, as numbers.
* `ratioLog2_eq_log`: the exponent of a ratio.
* `magnitudeBits_congr`: equal ratios have the same bits.
* `magnitudeBits_of_canonical`: a ratio that a significand and an exponent represent.
* `magnitudeBits_of_tiny`, `magnitudeBits_of_huge`: ratios out of the range of doubles.
* `nearest_of_decode?`: the value of a double.
-/

namespace PullAlgebra

/-- The number without its sign. -/
def Dyadic.magnitude (d : Dyadic) : ℚ := d.significand * 2 ^ d.exponent

/-- The bounds of the significand and the exponent of a double. Only at the least exponent can the
leading bit be missing. -/
structure Dyadic.Canonical (d : Dyadic) : Prop where
  least : -1074 ≤ d.exponent
  greatest : d.exponent ≤ 971
  bounded : d.significand < 0x20000000000000
  leading : 0x10000000000000 ≤ d.significand ∨ d.exponent = -1074

namespace Binary64

variable {num den num' den' m k : Nat}

/-- A power with an integer exponent, from a numerator and a denominator of which one is `1`. -/
theorem ratio_eq (b n : Nat) (e : Int) :
    ((n * b ^ e.toNat : Nat) : ℚ) / (b ^ (-e).toNat : Nat) = n * (b : ℚ) ^ e := by
  obtain ⟨i, rfl | rfl⟩ := e.eq_nat_or_neg
  · have : (-(i : Int)).toNat = 0 := by omega
    simp [this]
  · have : (-(i : Int)).toNat = 0 := by omega
    simp [this, div_eq_mul_inv]

theorem ratio_pos (hn : num ≠ 0) (hd : 0 < den) : (0 : ℚ) < num / den :=
  div_pos (Nat.cast_pos.2 (Nat.pos_of_ne_zero hn)) (Nat.cast_pos.2 hd)

theorem shiftLeft_le_shiftLeft_iff (num : Nat) (hd : 0 < den) (e : Int) :
    den <<< e.toNat ≤ num <<< (-e).toNat ↔ (2 : ℚ) ^ e ≤ num / den := by
  have power : (0 : ℚ) < (2 ^ (-e).toNat : Nat) := Nat.cast_pos.2 (Nat.two_pow_pos _)
  have ratio := ratio_eq 2 1 e
  rw [Nat.one_mul, Nat.cast_one, one_mul, Nat.cast_ofNat] at ratio
  rw [← ratio, div_le_div_iff₀ power (Nat.cast_pos.2 hd), Nat.shiftLeft_eq, Nat.shiftLeft_eq,
    Nat.mul_comm den]
  exact_mod_cast Iff.rfl

/-! ## Equal ratios -/

/-- The lengths of the two numbers leave a choice between two exponents. -/
theorem ratio_between (hn : num ≠ 0) (hd : 0 < den) :
    (2 : ℚ) ^ ((num.log2 : Int) - den.log2 - 1) ≤ num / den ∧
      (num : ℚ) / den < 2 ^ ((num.log2 : Int) - den.log2 + 1) := by
  have positive : (0 : ℚ) < den := Nat.cast_pos.2 hd
  have power (e : Int) (n : Nat) : (2 : ℚ) ^ e * (2 ^ n : Nat) = 2 ^ (e + n) := by
    rw [Nat.cast_pow, Nat.cast_ofNat, zpow_add₀ two_ne_zero, zpow_natCast]
  have lower : ((2 ^ num.log2 : Nat) : ℚ) ≤ num := by exact_mod_cast Nat.log2_self_le hn
  have upper : (num : ℚ) < (2 ^ (num.log2 + 1) : Nat) := by exact_mod_cast Nat.lt_log2_self
  have lower' : ((2 ^ den.log2 : Nat) : ℚ) ≤ den := by exact_mod_cast Nat.log2_self_le hd.ne'
  have upper' : (den : ℚ) ≤ (2 ^ (den.log2 + 1) : Nat) := by exact_mod_cast Nat.lt_log2_self.le
  rw [le_div_iff₀ positive, div_lt_iff₀ positive]
  constructor
  · calc (2 : ℚ) ^ ((num.log2 : Int) - den.log2 - 1) * den
        ≤ 2 ^ ((num.log2 : Int) - den.log2 - 1) * (2 ^ (den.log2 + 1) : Nat) :=
          mul_le_mul_of_nonneg_left upper' (zpow_pos two_pos _).le
      _ = (2 ^ num.log2 : Nat) := by
        rw [power, Nat.cast_pow, Nat.cast_ofNat, ← zpow_natCast]
        congr 1
        omega
      _ ≤ num := lower
  · calc (num : ℚ) < (2 ^ (num.log2 + 1) : Nat) := upper
      _ = 2 ^ ((num.log2 : Int) - den.log2 + 1) * (2 ^ den.log2 : Nat) := by
        rw [power, Nat.cast_pow, Nat.cast_ofNat, ← zpow_natCast]
        congr 1
        omega
      _ ≤ 2 ^ ((num.log2 : Int) - den.log2 + 1) * den :=
        mul_le_mul_of_nonneg_left lower' (zpow_pos two_pos _).le

theorem ratioLog2_eq_log (hn : num ≠ 0) (hd : 0 < den) :
    ratioLog2 num den = Int.log 2 ((num : ℚ) / den) := by
  have ratio := ratio_pos hn hd
  obtain ⟨lower, upper⟩ := ratio_between hn hd
  have le_log := (Int.zpow_le_iff_le_log one_lt_two ratio).1 lower
  have log_lt := (Int.lt_zpow_iff_log_lt one_lt_two ratio).1 upper
  have exact := (shiftLeft_le_shiftLeft_iff num hd (num.log2 - den.log2)).trans
    (Int.zpow_le_iff_le_log one_lt_two ratio)
  unfold ratioLog2
  dsimp only
  split <;> omega

theorem roundDiv_mul_left (hk : 0 < k) : roundDiv (k * num) (k * den) = roundDiv num den := by
  unfold roundDiv
  dsimp only
  rw [Nat.mul_div_mul_left _ _ hk, Nat.mul_mod_mul_left, Nat.mul_left_comm 2 k]
  simp only [Nat.mul_lt_mul_left hk, Nat.mul_right_inj (Nat.ne_of_gt hk)]

theorem magnitudeBits_zero (den : Nat) : magnitudeBits 0 den = 0 := by
  rw [magnitudeBits, if_pos rfl]

theorem magnitudeBits_mul_left (hk : 0 < k) (hd : 0 < den) :
    magnitudeBits (k * num) (k * den) = magnitudeBits num den := by
  by_cases hn : num = 0
  · rw [hn, Nat.mul_zero, magnitudeBits_zero, magnitudeBits_zero]
  · have hn' : k * num ≠ 0 := Nat.mul_ne_zero (Nat.ne_of_gt hk) hn
    have exponents : ratioLog2 (k * num) (k * den) = ratioLog2 num den := by
      rw [ratioLog2_eq_log hn' (Nat.mul_pos hk hd), ratioLog2_eq_log hn hd,
        Nat.cast_mul, Nat.cast_mul, mul_div_mul_left _ _ (Nat.cast_ne_zero.2 hk.ne')]
    simp only [magnitudeBits, if_neg hn, if_neg hn', exponents, Nat.shiftLeft_eq, Nat.mul_assoc,
      roundDiv_mul_left hk]

theorem mul_eq_mul_of_ratio (hd : 0 < den) (hd' : 0 < den')
    (same : (num : ℚ) / den = num' / den') : num * den' = num' * den := by
  rw [div_eq_div_iff (Nat.cast_ne_zero.2 hd.ne') (Nat.cast_ne_zero.2 hd'.ne')] at same
  exact_mod_cast same

theorem magnitudeBits_congr (hd : 0 < den) (hd' : 0 < den')
    (same : (num : ℚ) / den = num' / den') : magnitudeBits num den = magnitudeBits num' den' := by
  rw [← magnitudeBits_mul_left hd' hd, ← magnitudeBits_mul_left hd hd', Nat.mul_comm den' num,
    mul_eq_mul_of_ratio hd hd' same, Nat.mul_comm num', Nat.mul_comm den']

/-! ## Represented ratios -/

/-- The exponent of a represented ratio is that of its representation. -/
theorem max_ratioLog2_eq {d : Dyadic} (canonical : d.Canonical) (hn : num ≠ 0) (hd : 0 < den)
    (same : (num : ℚ) / den = d.magnitude) : max (ratioLog2 num den - 52) (-1074) = d.exponent := by
  obtain ⟨least, -, bounded, leading⟩ := canonical
  have power : (0 : ℚ) < 2 ^ d.exponent := zpow_pos two_pos _
  have ratio := ratio_pos hn hd
  have upper : (num : ℚ) / den < 2 ^ (53 + d.exponent) := by
    have : (d.significand : ℚ) < 2 ^ (53 : Int) := by exact_mod_cast bounded
    rw [same, Dyadic.magnitude, zpow_add₀ two_ne_zero]
    exact mul_lt_mul_of_pos_right this power
  have log_lt := (Int.lt_zpow_iff_log_lt one_lt_two ratio).1 upper
  rw [ratioLog2_eq_log hn hd]
  rcases leading with leading | rest
  · have lower : (2 : ℚ) ^ (52 + d.exponent) ≤ num / den := by
      have : (2 : ℚ) ^ (52 : Int) ≤ d.significand := by exact_mod_cast leading
      rw [same, Dyadic.magnitude, zpow_add₀ two_ne_zero]
      exact mul_le_mul_of_nonneg_right this power.le
    have le_log := (Int.zpow_le_iff_le_log one_lt_two ratio).1 lower
    omega
  · omega

theorem roundDiv_mul_self (hd : 0 < den) : roundDiv (m * den) den = m := by
  rw [roundDiv, Nat.mul_div_cancel _ hd, Nat.mul_mod_left, Nat.mul_zero, if_neg (by omega)]

/-- A ratio that a significand and an exponent represent has their bits. -/
theorem magnitudeBits_of_canonical {d : Dyadic} (canonical : d.Canonical) (hd : 0 < den)
    (same : (num : ℚ) / den = d.magnitude) :
    magnitudeBits num den = (d.exponent + 1074).toNat <<< 52 + d.significand := by
  have power : (0 : ℚ) < 2 ^ d.exponent := zpow_pos two_pos _
  by_cases hn : num = 0
  · have none : d.significand = 0 := by
      rw [hn, Nat.cast_zero, zero_div, Dyadic.magnitude, eq_comm, mul_eq_zero] at same
      exact_mod_cast same.resolve_right power.ne'
    have : d.exponent = -1074 := by simpa [none] using canonical.leading
    rw [hn, magnitudeBits_zero, none, this]
    rfl
  · have exponent := max_ratioLog2_eq canonical hn hd same
    have scaled : 0 < den <<< d.exponent.toNat := by
      rw [Nat.shiftLeft_eq]
      positivity
    have significand : num <<< (-d.exponent).toNat = d.significand * den <<< d.exponent.toNat := by
      have shifted := ratio_eq 2 d.significand d.exponent
      rw [Nat.cast_ofNat, ← Dyadic.magnitude, ← same] at shifted
      have := mul_eq_mul_of_ratio (by positivity) hd shifted
      rw [Nat.shiftLeft_eq, Nat.shiftLeft_eq, ← this, Nat.mul_right_comm, Nat.mul_assoc]
    have bound : (d.exponent + 1074).toNat <<< 52 + d.significand ≤ infinityBits := by
      obtain ⟨least, greatest, bounded, -⟩ := canonical
      rw [infinityBits, Nat.shiftLeft_eq, Nat.shiftLeft_eq]
      omega
    simp only [magnitudeBits, if_neg hn, exponent, significand, roundDiv_mul_self scaled]
    exact Nat.min_eq_left bound

/-! ## Ratios out of range -/

theorem roundDiv_eq_zero (h : 2 * num < den) : roundDiv num den = 0 := by
  have less : num < den := by omega
  rw [roundDiv, Nat.div_eq_of_lt less, Nat.mod_eq_of_lt less, if_neg (by omega)]

theorem magnitudeBits_of_tiny (hd : 0 < den) (tiny : (num : ℚ) / den < 2 ^ (-1075 : Int)) :
    magnitudeBits num den = 0 := by
  by_cases hn : num = 0
  · rw [hn, magnitudeBits_zero]
  · have ratio := ratio_pos hn hd
    have log_lt := (Int.lt_zpow_iff_log_lt one_lt_two ratio).1 tiny
    have exponent : max (ratioLog2 num den - 52) (-1074) = -1074 := by
      rw [ratioLog2_eq_log hn hd]
      omega
    -- the ratio is below half of the least positive double
    have half : 2 * num <<< 1074 < den := by
      rw [← Nat.shiftLeft_succ]
      exact Nat.lt_of_not_le (mt (shiftLeft_le_shiftLeft_iff _ hd (-1075)).1 tiny.not_ge)
    simp only [magnitudeBits, if_neg hn, exponent]
    change min (0 + roundDiv (num <<< 1074) den) infinityBits = 0
    rw [roundDiv_eq_zero half, Nat.add_zero, Nat.zero_min]

theorem magnitudeBits_of_huge (hd : 0 < den) (huge : (2 : ℚ) ^ (1024 : Int) ≤ num / den) :
    magnitudeBits num den = infinityBits := by
  have ratio : (0 : ℚ) < num / den := (zpow_pos two_pos 1024).trans_le huge
  have hn : num ≠ 0 := by
    rintro rfl
    simp at ratio
  have le_log := (Int.zpow_le_iff_le_log one_lt_two ratio).1 huge
  have top := Int.zpow_log_le_self one_lt_two ratio
  rw [← ratioLog2_eq_log hn hd] at le_log top
  replace top := (shiftLeft_le_shiftLeft_iff _ hd _).2 top
  have lower : 0x10000000000000 ≤ roundDiv (num <<< (-(ratioLog2 num den - 52)).toNat)
      (den <<< (ratioLog2 num den - 52).toNat) := by
    have left : (-(ratioLog2 num den - 52)).toNat = (-ratioLog2 num den).toNat := by omega
    have right : (ratioLog2 num den).toNat = (ratioLog2 num den - 52).toNat + 52 := by omega
    refine Nat.le_trans ?_ (le_roundDiv _ _)
    rw [right, Nat.shiftLeft_add, Nat.shiftLeft_eq _ 52, Nat.mul_comm] at top
    rwa [left, Nat.le_div_iff_mul_le]
    rw [Nat.shiftLeft_eq]
    positivity
  have exponent : max (ratioLog2 num den - 52) (-1074) = ratioLog2 num den - 52 := by omega
  simp only [magnitudeBits, if_neg hn, exponent]
  refine Nat.min_eq_right ?_
  rw [infinityBits, Nat.shiftLeft_eq, Nat.shiftLeft_eq]
  omega

/-! ## Doubles -/

/-- The number behind a double is within the bounds, and its representation makes the bits. -/
theorem canonical_of_decode? {x : Float} {d : Dyadic} (h : decode? x = some d) :
    d.Canonical ∧ d.negative = decide (0x8000000000000000 ≤ x.toBits.toNat) ∧
      (d.exponent + 1074).toNat <<< 52 + d.significand = magnitudeField x.toBits ∧
        exponentField x.toBits ≠ 2047 := by
  have exponent := exponentField_lt x.toBits
  have fraction := fractionField_lt x.toBits
  rw [magnitudeField_eq, Nat.shiftLeft_eq]
  unfold decode? at h
  dsimp only at h
  split at h
  · cases h
  · split at h <;> cases h
    all_goals refine ⟨⟨?_, ?_, ?_, ?_⟩, rfl, ?_, ‹_›⟩ <;> dsimp only <;> omega

/-- A double is the nearest to its own value. -/
theorem nearest_of_decode? {x : Float} {d : Dyadic} (h : decode? x = some d) (hd : 0 < den)
    (same : (num : ℚ) / den = d.magnitude) : nearest d.negative num den = x := by
  obtain ⟨canonical, negative, bits, finite⟩ := canonical_of_decode? h
  have word : UInt64.ofNat (if d.negative then 0x8000000000000000 + magnitudeField x.toBits
      else magnitudeField x.toBits) = x.toBits := by
    apply UInt64.toNat_inj.1
    have := x.toBits.toNat_lt
    rw [UInt64.toNat_ofNat', negative, magnitudeField]
    by_cases sign : 0x8000000000000000 ≤ x.toBits.toNat
    · rw [if_pos (decide_eq_true sign)]
      omega
    · rw [if_neg (by simpa using sign)]
      omega
  rw [nearest, magnitudeBits_of_canonical canonical hd same, bits, ofMagnitude, word]
  exact eq_of_toBits (toBits_ofBits fun top => absurd top finite)

end Binary64
end PullAlgebra
