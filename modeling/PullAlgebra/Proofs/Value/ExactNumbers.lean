import PullAlgebra.Proofs.Value.Nearest

/-!
# PullAlgebra.Proofs.Value.ExactNumbers

Finite doubles as rational numbers. Their bits, sign aside, grow with the number, so that the
comparison of two finite doubles is that of their numbers, and bits within the bounds of a finite
double stand for the number of their exponent and significand.

* `Dyadic.number`: the number behind a finite double.
* `Dyadic.Canonical.magnitude_lt_iff`: the order of magnitudes is that of the bits.
* `exists_decode?`: which doubles have a number.
* `lt_iff_number`, `le_iff_number`, `beq_iff_number`: the comparisons of finite doubles.
* `decode?_ofMagnitude`: the number that bits stand for.
-/

namespace PullAlgebra

namespace Dyadic

/-- The number with its sign. -/
def number (d : Dyadic) : ℚ := if d.negative then -d.magnitude else d.magnitude

/-- The bits of the magnitude, as a number. -/
def place (d : Dyadic) : Int := (d.exponent + 1074) * 0x10000000000000 + d.significand

variable {d d' : Dyadic}

theorem magnitude_nonneg (d : Dyadic) : 0 ≤ d.magnitude :=
  mul_nonneg (Nat.cast_nonneg _) (zpow_pos two_pos _).le

namespace Canonical

/-- A greater exponent outweighs every significand, as then the leading bit is present. -/
theorem magnitude_lt (c : d.Canonical) (c' : d'.Canonical) (h : d.place < d'.place) :
    d.magnitude < d'.magnitude := by
  obtain ⟨least, -, bounded, leading⟩ := c
  obtain ⟨least', -, bounded', leading'⟩ := c'
  unfold place at h
  have power : (0 : ℚ) < 2 ^ d.exponent := zpow_pos two_pos _
  have exponents : d.exponent = d'.exponent ∨ d.exponent < d'.exponent := by omega
  rcases exponents with same | less
  · have significands : (d.significand : ℚ) < d'.significand := by
      exact_mod_cast (show d.significand < d'.significand by omega)
    rw [magnitude, magnitude, ← same]
    exact mul_lt_mul_of_pos_right significands power
  · have upper : (d.significand : ℚ) < 2 ^ (53 : Int) := by exact_mod_cast bounded
    have lower : (2 : ℚ) ^ (52 : Int) ≤ d'.significand := by
      exact_mod_cast (show 0x10000000000000 ≤ d'.significand by omega)
    calc d.magnitude < 2 ^ (53 : Int) * 2 ^ d.exponent := mul_lt_mul_of_pos_right upper power
      _ = 2 ^ (52 : Int) * 2 ^ (d.exponent + 1) := by
        rw [← zpow_add₀ two_ne_zero, ← zpow_add₀ two_ne_zero]
        congr 1
        omega
      _ ≤ 2 ^ (52 : Int) * 2 ^ d'.exponent :=
        mul_le_mul_of_nonneg_left (zpow_le_zpow_right₀ one_le_two less) (zpow_pos two_pos _).le
      _ ≤ d'.magnitude := mul_le_mul_of_nonneg_right lower (zpow_pos two_pos _).le

/-- The bits determine the exponent and the significand. -/
theorem parts_eq (c : d.Canonical) (c' : d'.Canonical) (h : d.place = d'.place) :
    d.exponent = d'.exponent ∧ d.significand = d'.significand := by
  obtain ⟨least, -, bounded, leading⟩ := c
  obtain ⟨least', -, bounded', leading'⟩ := c'
  unfold place at h
  omega

theorem magnitude_lt_iff (c : d.Canonical) (c' : d'.Canonical) :
    d.magnitude < d'.magnitude ↔ d.place < d'.place := by
  refine ⟨fun h => ?_, magnitude_lt c c'⟩
  rcases Int.lt_trichotomy d.place d'.place with less | same | greater
  · exact less
  · obtain ⟨exponents, significands⟩ := parts_eq c c' same
    rw [magnitude, magnitude, exponents, significands] at h
    exact absurd h (lt_irrefl _)
  · exact absurd (magnitude_lt c' c greater) h.not_gt

theorem zero (negative : Bool) : Canonical ⟨negative, 0, -1074⟩ := by
  constructor <;> simp

theorem magnitude_pos_iff (c : d.Canonical) : 0 < d.magnitude ↔ 0 < d.place := by
  have none : magnitude ⟨false, 0, -1074⟩ = 0 := by simp [magnitude]
  have first : place ⟨false, 0, -1074⟩ = 0 := rfl
  have order := magnitude_lt_iff (zero false) c
  rwa [none, first] at order

theorem place_nonneg (c : d.Canonical) : 0 ≤ d.place := by
  have := c.least
  unfold place
  omega

end Canonical

/-- The bits with the sign of the number. -/
def signedPlace (d : Dyadic) : Int := if d.negative then -d.place else d.place

theorem number_lt_iff (c : d.Canonical) (c' : d'.Canonical) :
    d.number < d'.number ↔ d.signedPlace < d'.signedPlace := by
  have order := c.magnitude_lt_iff c'
  have reverse := c'.magnitude_lt_iff c
  have positive := c.magnitude_pos_iff
  have positive' := c'.magnitude_pos_iff
  have := d.magnitude_nonneg
  have := d'.magnitude_nonneg
  have := c.place_nonneg
  have := c'.place_nonneg
  unfold number signedPlace
  cases d.negative <;> cases d'.negative <;>
    simp only [if_true, if_false, Bool.false_eq_true, neg_lt_neg_iff]
  case false.false => exact order
  case true.true => exact reverse
  case false.true =>
    constructor
    · intro h
      linarith
    · intro h
      omega
  case true.false =>
    -- one of the two is not zero, on either side
    constructor
    · intro h
      rcases lt_or_ge 0 d.magnitude with one | none
      · have := positive.1 one
        omega
      · have := positive'.1 (by linarith)
        omega
    · intro h
      rcases Int.lt_or_le 0 d.place with one | none
      · have := positive.2 one
        linarith
      · have := positive'.2 (by omega)
        linarith

end Dyadic

namespace Binary64

variable {x y : Float} {d d' : Dyadic}

/-! ## Comparing -/

theorem isFinite_of_decode? (h : decode? x = some d) : x.isFinite := by
  obtain ⟨-, -, -, finite⟩ := canonical_of_decode? h
  have same : Float.ofBits x.toBits = x :=
    eq_of_toBits (toBits_ofBits fun top => absurd top finite)
  exact same ▸ isFinite_ofBits finite

/-- The finite doubles are those with a number. -/
theorem exists_decode? : x.isFinite ↔ ∃ d, decode? x = some d := by
  refine ⟨fun finite => ?_, fun ⟨d, h⟩ => isFinite_of_decode? h⟩
  unfold decode?
  dsimp only
  rw [if_neg (exponentField_of_isFinite finite)]
  split <;> exact ⟨_, rfl⟩

theorem number_of_isFinite (h : x.isFinite) : ¬x.isNaN := by
  rw [number_iff]
  intro nan
  change x.toModel.unpack.isFinite = true at h
  rw [nan] at h
  cases h

theorem rank_eq (h : decode? x = some d) : rank x = d.signedPlace := by
  obtain ⟨canonical, negative, bits, -⟩ := canonical_of_decode? h
  have place : (magnitudeField x.toBits : Int) = d.place := by
    have := canonical.least
    rw [← bits, Nat.shiftLeft_eq, Dyadic.place]
    omega
  rw [rank, signField_eq, place, Dyadic.signedPlace, negative]
  by_cases top : 0x8000000000000000 ≤ x.toBits.toNat
  · rw [if_pos top, if_pos (decide_eq_true top)]
    rfl
  · rw [if_neg top, if_neg (by simpa using top)]
    rfl

theorem compare_eq (hx : decode? x = some d) (hy : decode? y = some d') :
    x.toModel.unpack.compare y.toModel.unpack = some (compare d.number d'.number) := by
  obtain ⟨c, -⟩ := canonical_of_decode? hx
  obtain ⟨c', -⟩ := canonical_of_decode? hy
  have less := Dyadic.number_lt_iff c c'
  have greater := Dyadic.number_lt_iff c' c
  rw [← compareFloats?_eq, compareFloats?_eq_rank (number_of_isFinite (isFinite_of_decode? hx))
    (number_of_isFinite (isFinite_of_decode? hy)), rank_eq hx, rank_eq hy]
  rcases lt_trichotomy d.number d'.number with order | order | order
  · rw [Int.compare_eq_lt.2 (less.1 order), compare_lt_iff_lt.2 order]
  · have := mt less.2 order.not_lt
    have := mt greater.2 order.not_gt
    rw [Int.compare_eq_eq.2 (by omega), compare_eq_iff_eq.2 order]
  · rw [Int.compare_eq_gt.2 (greater.1 order), compare_gt_iff_gt.2 order]

theorem lt_iff_number (hx : decode? x = some d) (hy : decode? y = some d') :
    x < y ↔ d.number < d'.number := by
  rw [lt_iff, compare_eq hx hy, Option.some.injEq, compare_lt_iff_lt]

theorem beq_iff_number (hx : decode? x = some d) (hy : decode? y = some d') :
    x == y ↔ d.number = d'.number := by
  rw [beq_iff, compare_eq hx hy, Option.some.injEq, compare_eq_iff_eq]

theorem le_iff_number (hx : decode? x = some d) (hy : decode? y = some d') :
    x ≤ y ↔ d.number ≤ d'.number := by
  change Float.le x y = true ↔ _
  unfold Float.le
  rw [decide_eq_true_iff]
  change (x.toModel.unpack.compare y.toModel.unpack).any (·.isLE) = true ↔ _
  rw [compare_eq hx hy, Option.any_some, Ordering.isLE_iff_ne_gt]
  exact compare_le_iff_le

/-! ## Bits -/

/-- Bits within the bounds stand for the number of their exponent and significand. -/
theorem decode?_ofMagnitude (c : d.Canonical) :
    decode? (ofMagnitude d.negative d.place.toNat) = some d := by
  have below : d.place.toNat < infinityBits := by
    obtain ⟨least, greatest, bounded, leading⟩ := c
    rw [infinityBits, Nat.shiftLeft_eq, Dyadic.place]
    omega
  have word := toNat_toBits_ofMagnitude d.negative below
  obtain ⟨d', decoded⟩ := exists_decode?.1 (isFinite_ofMagnitude d.negative below)
  obtain ⟨c', negative, bits, -⟩ := canonical_of_decode? decoded
  have places : d'.place = d.place := by
    have := c.place_nonneg
    have := c'.least
    rw [infinityBits, Nat.shiftLeft_eq] at below
    rw [magnitudeField, word, Nat.shiftLeft_eq] at bits
    have lower : d'.place = ((d'.exponent + 1074).toNat * 2 ^ 52 + d'.significand : Nat) := by
      rw [Dyadic.place]
      omega
    rw [lower, bits]
    split <;> omega
  have sign : d'.negative = d.negative := by
    rw [infinityBits, Nat.shiftLeft_eq] at below
    rw [negative, word]
    cases d.negative
    · simpa using by omega
    · simp
  obtain ⟨exponents, significands⟩ := Dyadic.Canonical.parts_eq c' c places
  rw [decoded]
  cases d'; cases d
  cases sign; cases exponents; cases significands
  rfl

end Binary64
end PullAlgebra
