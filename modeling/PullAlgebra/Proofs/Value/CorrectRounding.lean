import PullAlgebra.Proofs.Value.ExactNumbers
import PullAlgebra.Proofs.Value.Shortest

/-!
# PullAlgebra.Proofs.Value.CorrectRounding

The double nearest to a number is nearest to it. A number is divided into steps of a power of two,
no more of them than a significand can count, and the number of steps is rounded to an integer.
Doubles with steps as large or larger are whole numbers of these steps. Those with smaller steps all
lie below a number of steps that is not above the number itself. From the middle between the greatest
finite double and the next power of two on the steps run out.

* `roundDiv_close`: the nearest integer, an even one in the middle between two.
* `Steps`: the number of steps, rounded; `steps_of_ratio`: the bits of a double are made of it.
* `NearestTo`: a double that is nearest to a number.
* `isFinite_nearest_iff`, `exists_nearest`: below the middle there is a finite double, and it is
  nearest.
* `Decimal.isFinite_toFloat_iff`, `Decimal.exists_toFloat`: the same for decimal numbers.
-/

namespace PullAlgebra
namespace Binary64

variable {num den m : Nat} {q : ℚ}

/-! ## Nearest integers -/

/-- The nearest integer is at most a half away, and an even one where it is just that. -/
theorem roundDiv_close (num : Nat) (hd : 0 < den) : |(roundDiv num den : ℚ) - num / den| ≤ 1 / 2 ∧
    (|(roundDiv num den : ℚ) - num / den| = 1 / 2 → roundDiv num den % 2 = 0) := by
  have positive : (0 : ℚ) < den := Nat.cast_pos.2 hd
  obtain ⟨rest, hrest⟩ : ∃ rest : ℚ, rest = (num % den : Nat) / den := ⟨_, rfl⟩
  have parts : (num : ℚ) / den = (num / den : Nat) + rest := by
    rw [hrest, div_eq_iff positive.ne', add_mul, div_mul_cancel₀ _ positive.ne', mul_comm]
    exact_mod_cast (Nat.div_add_mod num den).symm
  have nonneg : 0 ≤ rest := by rw [hrest]; positivity
  have less : rest < 1 := by
    rw [hrest, div_lt_one positive]
    exact_mod_cast Nat.mod_lt num hd
  have half : rest = 1 / 2 ↔ 2 * (num % den) = den := by
    rw [hrest, div_eq_div_iff positive.ne' two_ne_zero, one_mul, mul_comm]
    exact_mod_cast Iff.rfl
  have above : 1 / 2 < rest ↔ den < 2 * (num % den) := by
    rw [hrest, div_lt_div_iff₀ two_pos positive, one_mul, mul_comm]
    exact_mod_cast Iff.rfl
  rw [parts]
  unfold roundDiv
  dsimp only
  split
  case isTrue up =>
    have upper : 1 / 2 ≤ rest := by
      rcases up with more | ⟨tie, -⟩
      · exact (above.2 more).le
      · exact (half.2 tie).ge
    have distance : ((num / den + 1 : Nat) : ℚ) - ((num / den : Nat) + rest) = 1 - rest := by
      push_cast
      ring
    rw [distance, abs_of_nonneg (by linarith)]
    refine ⟨by linarith, fun tie => ?_⟩
    have := half.1 (by linarith)
    omega
  case isFalse down =>
    have lower : rest ≤ 1 / 2 := not_lt.1 fun more => down (.inl (above.1 more))
    have distance : ((num / den : Nat) : ℚ) - ((num / den : Nat) + rest) = -rest := by ring
    rw [distance, abs_neg, abs_of_nonneg nonneg]
    refine ⟨lower, fun tie => ?_⟩
    have := half.1 tie
    omega

theorem one_le_abs_sub {k : Nat} (apart : k ≠ m) : (1 : ℚ) ≤ |(k : ℚ) - m| := by
  have : (1 : Int) ≤ |(k : Int) - m| := Int.one_le_abs (by omega)
  exact_mod_cast this

/-- An integer at most a half away is the nearest one. -/
theorem close_le {x : ℚ} (close : |(m : ℚ) - x| ≤ 1 / 2) (k : Nat) :
    |(m : ℚ) - x| ≤ |(k : ℚ) - x| := by
  by_cases same : k = m
  · rw [same]
  · have apart := one_le_abs_sub same
    have triangle := abs_sub_le (k : ℚ) x m
    rw [abs_sub_comm x] at triangle
    linarith

/-- Only in the middle another integer is as near. -/
theorem half_of_as_near {x : ℚ} (close : |(m : ℚ) - x| ≤ 1 / 2) {k : Nat} (apart : k ≠ m)
    (tie : |(k : ℚ) - x| = |(m : ℚ) - x|) : |(m : ℚ) - x| = 1 / 2 := by
  have apart := one_le_abs_sub apart
  have triangle := abs_sub_le (k : ℚ) x m
  rw [abs_sub_comm x] at triangle
  linarith

/-! ## Steps -/

/-- The exponent of the steps that a number is divided into. -/
def stepExponent (q : ℚ) : Int := max (Int.log 2 q - 52) (-1074)

/-- The steps that a number comes to, rounded to an integer. -/
structure Steps (q : ℚ) (m : Nat) : Prop where
  close : |(m : ℚ) - q / 2 ^ stepExponent q| ≤ 1 / 2
  even : |(m : ℚ) - q / 2 ^ stepExponent q| = 1 / 2 → m % 2 = 0

theorem step_pos (q : ℚ) : (0 : ℚ) < 2 ^ stepExponent q := zpow_pos two_pos _

theorem steps_of_ratio (hn : num ≠ 0) (hd : 0 < den) : ∃ m, Steps (num / den) m ∧
    magnitudeBits num den =
      min ((stepExponent (num / den) + 1074).toNat <<< 52 + m) infinityBits := by
  have exponent : max (ratioLog2 num den - 52) (-1074) = stepExponent (num / den) := by
    rw [ratioLog2_eq_log hn hd, stepExponent]
  have positive : 0 < den <<< (stepExponent (num / den)).toNat := by
    rw [Nat.shiftLeft_eq]
    positivity
  have ratio : ((num <<< (-stepExponent (num / den)).toNat : Nat) : ℚ) /
      (den <<< (stepExponent (num / den)).toNat : Nat) =
        num / den / 2 ^ stepExponent (num / den) := by
    have power := ratio_eq 2 1 (stepExponent (num / den))
    rw [Nat.one_mul, Nat.cast_one, one_mul, Nat.cast_ofNat] at power
    rw [Nat.shiftLeft_eq, Nat.shiftLeft_eq, Nat.cast_mul, Nat.cast_mul, ← power]
    field_simp
  refine ⟨roundDiv (num <<< (-stepExponent (num / den)).toNat)
    (den <<< (stepExponent (num / den)).toNat), ?_,
    by simp only [magnitudeBits, if_neg hn, exponent]⟩
  obtain ⟨close, even⟩ :=
    roundDiv_close (num <<< (-stepExponent (num / den)).toNat) positive
  rw [ratio] at close even
  exact ⟨close, even⟩

theorem scaled_lt (q : ℚ) : q / 2 ^ stepExponent q < 0x20000000000000 := by
  have above := Int.lt_zpow_succ_log_self one_lt_two q
  rw [div_lt_iff₀ (step_pos q), show (0x20000000000000 : ℚ) = 2 ^ (53 : Int) by norm_num,
    ← zpow_add₀ two_ne_zero]
  refine lt_of_lt_of_le (by exact_mod_cast above) (zpow_le_zpow_right₀ one_le_two ?_)
  unfold stepExponent
  omega

/-- Above the least exponent the steps fill a significand. -/
theorem le_scaled (positive : 0 < q) (h : -1074 < stepExponent q) :
    0x10000000000000 ≤ q / 2 ^ stepExponent q := by
  have below := Int.zpow_log_le_self one_lt_two positive
  rw [le_div_iff₀ (step_pos q), show (0x10000000000000 : ℚ) = 2 ^ (52 : Int) by norm_num,
    ← zpow_add₀ two_ne_zero]
  refine le_trans (zpow_le_zpow_right₀ one_le_two ?_) (by exact_mod_cast below)
  unfold stepExponent at h ⊢
  omega

namespace Steps

theorem lt_of_scaled_lt (steps : Steps q m) {n : Nat} (h : q / 2 ^ stepExponent q < n) : m ≤ n := by
  have close := (abs_le.1 steps.close).2
  have : (m : ℚ) < (n + 1 : Nat) := by
    push_cast
    linarith
  have := Nat.cast_lt.1 this
  omega

theorem le_of_le_scaled (steps : Steps q m) {n : Nat} (h : n ≤ q / 2 ^ stepExponent q) : n ≤ m := by
  have close := (abs_le.1 steps.close).1
  have : (n : ℚ) < (m + 1 : Nat) := by
    push_cast
    linarith
  have := Nat.cast_lt.1 this
  omega

theorem le (steps : Steps q m) : m ≤ 0x20000000000000 :=
  steps.lt_of_scaled_lt (scaled_lt q)

theorem leading (steps : Steps q m) (positive : 0 < q) :
    0x10000000000000 ≤ m ∨ stepExponent q = -1074 := by
  have least : -1074 ≤ stepExponent q := le_max_right _ _
  by_cases h : -1074 < stepExponent q
  · exact .inl (steps.le_of_le_scaled (le_scaled positive h))
  · exact .inr (by omega)

/-- An odd number of steps is not the result where an even one is as near. -/
theorem lt_iff_of_odd (steps : Steps q m) {n : Nat} (odd : n % 2 = 1) :
    n < m ↔ n + 1 / 2 ≤ q / 2 ^ stepExponent q := by
  have close := abs_le.1 steps.close
  constructor
  · intro more
    have : ((n + 1 : Nat) : ℚ) ≤ m := by exact_mod_cast more
    push_cast at this
    linarith
  · intro above
    rcases Nat.lt_trichotomy n m with less | same | greater
    · exact less
    · subst same
      have tie : |(n : ℚ) - q / 2 ^ stepExponent q| = 1 / 2 :=
        le_antisymm steps.close (le_abs.2 (.inr (by linarith)))
      have := steps.even tie
      omega
    · have : ((m + 1 : Nat) : ℚ) ≤ n := by exact_mod_cast greater
      push_cast at this
      linarith

end Steps

/-! ## Overflow -/

/-- The middle between the greatest finite double and the next power of two. -/
def overflow : ℚ := 2 ^ 1024 - 2 ^ 970

theorem overflow_eq : overflow = (0x1fffffffffffff + 1 / 2) * 2 ^ (971 : Int) := by
  have top : (2 : ℚ) ^ 1024 = 2 ^ 53 * 2 ^ 971 := (pow_add 2 53 971)
  have half : (2 : ℚ) ^ 971 = 2 * 2 ^ 970 := pow_succ' 2 970
  rw [overflow, top, show (971 : Int) = (971 : Nat) from rfl, zpow_natCast, half]
  generalize (2 : ℚ) ^ 970 = unit
  ring

theorem le_overflow : (2 : ℚ) ^ (1023 : Int) ≤ overflow := by
  have top : (2 : ℚ) ^ (1023 : Int) = 2 ^ 52 * 2 ^ (971 : Int) := zpow_add₀ two_ne_zero 52 971
  rw [top, overflow_eq]
  exact mul_le_mul_of_nonneg_right (by norm_num) (zpow_pos two_pos _).le

theorem overflow_le : overflow ≤ 2 ^ (1024 : Int) := by
  have top : (2 : ℚ) ^ (1024 : Int) = 2 ^ 53 * 2 ^ (971 : Int) := zpow_add₀ two_ne_zero 53 971
  rw [top, overflow_eq]
  exact mul_le_mul_of_nonneg_right (by norm_num) (zpow_pos two_pos _).le

/-- The steps run out at the middle, where they are rounded up. -/
theorem Steps.bits_lt_iff (steps : Steps q m) (positive : 0 < q) :
    (stepExponent q + 1074).toNat <<< 52 + m < infinityBits ↔ q < overflow := by
  have upper := steps.le
  have least : -1074 ≤ stepExponent q := le_max_right _ _
  rw [infinityBits, Nat.shiftLeft_eq, Nat.shiftLeft_eq]
  rcases Int.lt_trichotomy (stepExponent q) 971 with less | same | greater
  · have log : Int.log 2 q < 1023 := by
      unfold stepExponent at less
      omega
    have below : q < 2 ^ (1023 : Int) := (Int.lt_zpow_iff_log_lt one_lt_two positive).2 log
    exact iff_of_true (by omega) (below.trans_le le_overflow)
  · have odd := steps.lt_iff_of_odd (n := 0x1fffffffffffff) (by decide)
    rw [same, le_div_iff₀ (zpow_pos two_pos _)] at odd
    rw [same, overflow_eq, ← not_le, ← not_le]
    refine not_congr (Iff.trans ?_ odd)
    omega
  · have log : 1023 < Int.log 2 q := by
      unfold stepExponent at greater
      omega
    have above : (2 : ℚ) ^ (1024 : Int) ≤ q := (Int.zpow_le_iff_le_log one_lt_two positive).2 log
    have := steps.leading positive
    exact iff_of_false (by omega) (overflow_le.trans above).not_gt

/-! ## Doubles -/

/-- A number of steps within the bounds is the magnitude of a double. With as many steps as a
significand cannot count there are half as many of twice the size. -/
theorem Steps.exists_canonical (steps : Steps q m) (positive : 0 < q) (h : q < overflow)
    (negative : Bool) : ∃ d : Dyadic, d.Canonical ∧ d.negative = negative ∧
      d.place.toNat = (stepExponent q + 1074).toNat <<< 52 + m ∧
      d.magnitude = m * 2 ^ stepExponent q ∧ (m % 2 = 0 → d.significand % 2 = 0) := by
  have upper := steps.le
  have leading := steps.leading positive
  have least : -1074 ≤ stepExponent q := le_max_right _ _
  have bits := (steps.bits_lt_iff positive).2 h
  rw [infinityBits, Nat.shiftLeft_eq, Nat.shiftLeft_eq] at bits
  rw [Nat.shiftLeft_eq]
  rcases Nat.lt_or_eq_of_le upper with less | carry
  · refine ⟨⟨negative, m, stepExponent q⟩, ⟨least, ?_, less, leading⟩, rfl, ?_, rfl, id⟩
    · dsimp only
      omega
    · dsimp only [Dyadic.place]
      omega
  · refine ⟨⟨negative, 0x10000000000000, stepExponent q + 1⟩, ⟨?_, ?_, ?_, ?_⟩, rfl, ?_, ?_, ?_⟩
    any_goals dsimp only [Dyadic.place]
    any_goals omega
    · rw [Dyadic.magnitude, carry, zpow_add_one₀ two_ne_zero]
      push_cast
      ring

/-- A double is nearest to a number: it has the sign that is asked for, the magnitude of no double
is nearer, and where another one is as near its significand is even. -/
structure NearestTo (negative : Bool) (q : ℚ) (d : Dyadic) : Prop where
  sign : d.negative = negative
  nearest : ∀ y d', decode? y = some d' → |d.magnitude - q| ≤ |d'.magnitude - q|
  even : ∀ y d', decode? y = some d' → |d'.magnitude - q| = |d.magnitude - q| →
    d'.magnitude ≠ d.magnitude → d.significand % 2 = 0

theorem abs_scaled (q x : ℚ) :
    |x * 2 ^ stepExponent q - q| = |x - q / 2 ^ stepExponent q| * 2 ^ stepExponent q := by
  have step := step_pos q
  rw [← abs_of_pos step, ← abs_mul, abs_of_pos step, sub_mul, div_mul_cancel₀ _ step.ne']

/-- The magnitude of a double is a number of steps, or else below a number of steps that is not
above the number itself. -/
theorem steps_or_below (positive : 0 < q) {d : Dyadic} (c : d.Canonical) :
    (∃ k : Nat, d.magnitude = k * 2 ^ stepExponent q) ∨
      ∃ k : Nat, d.magnitude < k * 2 ^ stepExponent q ∧ k * 2 ^ stepExponent q ≤ q := by
  rcases Int.lt_or_le d.exponent (stepExponent q) with less | more
  · right
    have finer : -1074 < stepExponent q := lt_of_le_of_lt c.least less
    refine ⟨0x10000000000000, ?_, ?_⟩
    · have bounded : (d.significand : ℚ) < 0x20000000000000 := by exact_mod_cast c.bounded
      calc d.magnitude < 0x20000000000000 * 2 ^ d.exponent :=
            mul_lt_mul_of_pos_right bounded (zpow_pos two_pos _)
        _ = 0x10000000000000 * 2 ^ (d.exponent + 1) := by
          rw [zpow_add_one₀ two_ne_zero]
          ring
        _ ≤ (0x10000000000000 : Nat) * 2 ^ stepExponent q := by
          refine mul_le_mul_of_nonneg_left (zpow_le_zpow_right₀ one_le_two less) ?_
          norm_num
    · have lower := le_scaled positive finer
      rw [le_div_iff₀ (step_pos q)] at lower
      exact_mod_cast lower
  · left
    refine ⟨d.significand * 2 ^ (d.exponent - stepExponent q).toNat, ?_⟩
    have power : (2 : ℚ) ^ d.exponent =
        2 ^ (d.exponent - stepExponent q).toNat * 2 ^ stepExponent q := by
      rw [← zpow_natCast, ← zpow_add₀ two_ne_zero]
      congr 1
      omega
    rw [Dyadic.magnitude, power]
    push_cast
    ring

/-- The rounded number of steps is nearer than all doubles but the other numbers of steps, and none
of these is nearer. -/
theorem Steps.nearest (steps : Steps q m) (positive : 0 < q) {d : Dyadic} (c : d.Canonical) :
    |m * 2 ^ stepExponent q - q| < |d.magnitude - q| ∨
      ∃ k : Nat, d.magnitude = k * 2 ^ stepExponent q ∧
        |m * 2 ^ stepExponent q - q| ≤ |k * 2 ^ stepExponent q - q| := by
  have whole (k : Nat) : |m * 2 ^ stepExponent q - q| ≤ |k * 2 ^ stepExponent q - q| := by
    rw [abs_scaled, abs_scaled]
    exact mul_le_mul_of_nonneg_right (close_le steps.close k) (step_pos q).le
  rcases steps_or_below positive c with ⟨k, same⟩ | ⟨k, below, le⟩
  · exact .inr ⟨k, same, whole k⟩
  · left
    calc |m * 2 ^ stepExponent q - q| ≤ |k * 2 ^ stepExponent q - q| := whole k
      _ = q - k * 2 ^ stepExponent q := by rw [abs_sub_comm, abs_of_nonneg (sub_nonneg.2 le)]
      _ < q - d.magnitude := sub_lt_sub_left below q
      _ ≤ |d.magnitude - q| := by
        rw [abs_sub_comm]
        exact le_abs_self _

theorem Steps.nearestTo (steps : Steps q m) (positive : 0 < q) {negative : Bool} {d : Dyadic}
    (sign : d.negative = negative) (magnitude : d.magnitude = m * 2 ^ stepExponent q)
    (even : m % 2 = 0 → d.significand % 2 = 0) : NearestTo negative q d := by
  refine ⟨sign, fun y d' decoded => ?_, fun y d' decoded tie apart => ?_⟩
  all_goals
    obtain ⟨c, -⟩ := canonical_of_decode? decoded
    rw [magnitude] at *
  · rcases steps.nearest positive c with nearer | ⟨k, same, le⟩
    · exact nearer.le
    · rwa [same]
  · rcases steps.nearest positive c with nearer | ⟨k, same, -⟩
    · exact absurd tie nearer.ne'
    · rw [same] at tie apart
      have apart : k ≠ m := fun h => apart (h ▸ rfl)
      rw [abs_scaled, abs_scaled] at tie
      have tie := mul_right_cancel₀ (step_pos q).ne' tie
      exact even (steps.even (half_of_as_near steps.close apart tie))

theorem nearestTo_zero (negative : Bool) : NearestTo negative 0 ⟨negative, 0, -1074⟩ := by
  have none : Dyadic.magnitude ⟨negative, 0, -1074⟩ = 0 := by simp [Dyadic.magnitude]
  refine ⟨rfl, fun _ _ _ => ?_, fun _ _ _ _ _ => rfl⟩
  rw [none, sub_zero, abs_zero]
  exact abs_nonneg _

theorem isFinite_ofMagnitude_iff (negative : Bool) {bits : Nat} :
    (ofMagnitude negative (min bits infinityBits)).isFinite ↔ bits < infinityBits := by
  rcases Nat.lt_or_ge bits infinityBits with less | more
  · rw [Nat.min_eq_left less.le]
    exact iff_of_true (isFinite_ofMagnitude negative less) less
  · have infinite : ¬(ofMagnitude negative infinityBits).isFinite := by
      cases negative <;> decide +kernel
    rw [Nat.min_eq_right more]
    exact iff_of_false infinite more.not_gt

/-- The double nearest to a ratio is finite below the middle. -/
theorem isFinite_nearest_iff (negative : Bool) (num : Nat) (hd : 0 < den) :
    (nearest negative num den).isFinite ↔ (num : ℚ) / den < overflow := by
  by_cases hn : num = 0
  · have finite : (nearest negative num den).isFinite := by
      rw [nearest, hn, magnitudeBits_zero]
      exact isFinite_ofMagnitude negative (by decide)
    have less : (0 : ℚ) < overflow := (zpow_pos two_pos 1023).trans_le le_overflow
    refine iff_of_true finite ?_
    rwa [hn, Nat.cast_zero, zero_div]
  · obtain ⟨m, steps, bits⟩ := steps_of_ratio hn hd
    rw [nearest, bits, isFinite_ofMagnitude_iff]
    exact steps.bits_lt_iff (ratio_pos hn hd)

/-- The double nearest to a ratio is nearest to it. -/
theorem exists_nearest (negative : Bool) (num : Nat) (hd : 0 < den)
    (h : (num : ℚ) / den < overflow) :
    ∃ d, decode? (nearest negative num den) = some d ∧ NearestTo negative (num / den) d := by
  by_cases hn : num = 0
  · refine ⟨⟨negative, 0, -1074⟩, ?_, ?_⟩
    · have place : (Dyadic.place ⟨negative, 0, -1074⟩).toNat = 0 := rfl
      have decoded := decode?_ofMagnitude (Dyadic.Canonical.zero negative)
      rwa [nearest, hn, magnitudeBits_zero, ← place]
    · rw [hn, Nat.cast_zero, zero_div]
      exact nearestTo_zero negative
  · obtain ⟨m, steps, bits⟩ := steps_of_ratio hn hd
    have positive := ratio_pos hn hd
    obtain ⟨d, canonical, sign, place, magnitude, even⟩ :=
      steps.exists_canonical positive h negative
    have below := (steps.bits_lt_iff positive).2 h
    refine ⟨d, ?_, steps.nearestTo positive sign magnitude even⟩
    rw [nearest, bits, Nat.min_eq_left below.le, ← place, ← sign]
    exact decode?_ofMagnitude canonical

end Binary64

namespace Decimal

theorem isFinite_toFloat_iff (d : Decimal) :
    d.toFloat.isFinite ↔ d.magnitude < Binary64.overflow := by
  rw [toFloat_eq_nearest, Binary64.isFinite_nearest_iff _ _ (by positivity), ratio_eq_magnitude]

/-- The double of a decimal number is nearest to it. -/
theorem exists_toFloat {d : Decimal} (h : d.magnitude < Binary64.overflow) :
    ∃ b, Binary64.decode? d.toFloat = some b ∧ Binary64.NearestTo d.negative d.magnitude b := by
  have positive : 0 < 10 ^ (-d.exponent).toNat := by positivity
  rw [← ratio_eq_magnitude] at h ⊢
  rw [toFloat_eq_nearest]
  exact Binary64.exists_nearest d.negative _ positive h

end Decimal
end PullAlgebra
