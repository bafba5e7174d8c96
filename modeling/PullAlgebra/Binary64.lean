import PullAlgebra.Binary64.Bits

/-!
# PullAlgebra.Binary64

Doubles as exact numbers. A finite double is a sign, a natural significand and a power of two; in
the other direction a ratio of natural numbers has a nearest double, a tie going to the one with
the even significand.

* `decode?`: the sign, significand and exponent of a finite double, and nothing for the others.
* `nearest`: the double nearest to a ratio, infinite beyond the greatest finite one.
* `magnitudeBits_eq`: the bits of an integer's double, from its length and its leading bits.
* `isFinite_ofInt`: an integer of 64 bits has a finite double.
-/

namespace PullAlgebra

/-- The number `±significand · 2^exponent`. -/
structure Dyadic where
  negative : Bool
  significand : Nat
  exponent : Int
  deriving DecidableEq, Repr

namespace Binary64

/-- The exact number behind a finite double. Subnormal numbers and zeros have no leading bit. -/
def decode? (x : Float) : Option Dyadic :=
  let negative := decide (0x8000000000000000 ≤ x.toBits.toNat)
  let biased := exponentField x.toBits
  let fraction := fractionField x.toBits
  if biased = 2047 then none
  else if biased = 0 then some ⟨negative, fraction, -1074⟩
  else some ⟨negative, 0x10000000000000 + fraction, (biased : Int) - 1075⟩

/-- The integer nearest to `num / den`, a tie going to the even one. -/
def roundDiv (num den : Nat) : Nat :=
  let quotient := num / den
  let twice := 2 * (num % den)
  if den < twice ∨ (twice = den ∧ quotient % 2 = 1) then quotient + 1 else quotient

/-- The exponent `e` with `2^e ≤ num / den < 2^(e+1)`, for a positive ratio. -/
def ratioLog2 (num den : Nat) : Int :=
  let e : Int := (num.log2 : Int) - den.log2
  if den <<< e.toNat ≤ num <<< (-e).toNat then e else e - 1

/-- The bits of positive infinity, which lie just above those of the greatest finite double. -/
def infinityBits : Nat := 2047 <<< 52

/-- The bits, sign aside, of the double nearest to `num / den`. The ratio is rounded to 53
significant bits, or to a multiple of `2^(-1074)` when that is coarser; a carry out of the
significand runs into the exponent field, as it should. -/
def magnitudeBits (num den : Nat) : Nat :=
  if num = 0 then 0
  else
    let exponent := max (ratioLog2 num den - 52) (-1074)
    let significand := roundDiv (num <<< (-exponent).toNat) (den <<< exponent.toNat)
    min ((exponent + 1074).toNat <<< 52 + significand) infinityBits

/-- The double with a sign and the bits of a magnitude. -/
def ofMagnitude (negative : Bool) (bits : Nat) : Float :=
  Float.ofBits (UInt64.ofNat (if negative then 0x8000000000000000 + bits else bits))

/-- The double nearest to `±num / den`. -/
def nearest (negative : Bool) (num den : Nat) : Float :=
  ofMagnitude negative (magnitudeBits num den)

/-- The double nearest to an integer. -/
def ofInt (n : Int) : Float := nearest (decide (n < 0)) n.natAbs 1

theorem isFinite_ofMagnitude (negative : Bool) {bits : Nat} (h : bits < infinityBits) :
    (ofMagnitude negative bits).isFinite := by
  apply isFinite_ofBits
  rw [infinityBits, Nat.shiftLeft_eq] at h
  rw [exponentField, UInt64.toNat_ofNat', Nat.shiftRight_eq_div_pow]
  split <;> omega

theorem roundDiv_le (num den : Nat) : roundDiv num den ≤ num / den + 1 := by
  unfold roundDiv
  dsimp only
  split <;> omega

theorem ratioLog2_one {n : Nat} (h : n ≠ 0) : ratioLog2 n 1 = n.log2 := by
  have e : ((n.log2 : Int) - (Nat.log2 1 : Nat)) = n.log2 := by
    rw [show Nat.log2 1 = 0 from by decide]; omega
  unfold ratioLog2
  rw [e, if_pos]
  have := Nat.log2_self_le h
  rw [Nat.shiftLeft_eq, Nat.shiftLeft_eq, Int.toNat_natCast, Int.toNat_neg_natCast]
  omega

/-- The leading 53 bits of a positive integer, rounded; filled up with zeros if it has fewer. -/
def leading (n : Nat) : Nat := roundDiv (n <<< (52 - n.log2)) (1 <<< (n.log2 - 52))

theorem leading_le (n : Nat) : leading n ≤ 0x20000000000000 := by
  have above : n < 2 ^ (n.log2 + 1) := Nat.lt_log2_self
  refine Nat.le_trans (roundDiv_le _ _) ?_
  apply Nat.div_lt_of_lt_mul
  rw [Nat.shiftLeft_eq, Nat.shiftLeft_eq, Nat.one_mul]
  have split : 2 ^ (n.log2 - 52) * 0x20000000000000 = 2 ^ (n.log2 + 1) * 2 ^ (52 - n.log2) := by
    rw [← Nat.pow_add, show (0x20000000000000 : Nat) = 2 ^ 53 from by decide, ← Nat.pow_add]
    congr 1
    omega
  rw [split]
  exact Nat.mul_lt_mul_of_pos_right above (Nat.two_pow_pos _)

theorem magnitudeBits_eq {n : Nat} (h0 : n ≠ 0) (h : n < 0x10000000000000000) :
    magnitudeBits n 1 = (n.log2 + 1022) * 0x10000000000000 + leading n := by
  have length : n.log2 < 64 := (Nat.log2_lt h0).2 h
  have bound := leading_le n
  have exponent : max ((n.log2 : Int) - 52) (-1074) = (n.log2 : Int) - 52 := by omega
  have left : (-((n.log2 : Int) - 52)).toNat = 52 - n.log2 := by omega
  have right : ((n.log2 : Int) - 52).toNat = n.log2 - 52 := by omega
  have biased : ((n.log2 : Int) - 52 + 1074).toNat = n.log2 + 1022 := by omega
  rw [magnitudeBits, if_neg h0, ratioLog2_one h0]
  dsimp only
  rw [exponent, left, right, biased, ← leading, infinityBits, Nat.shiftLeft_eq, Nat.shiftLeft_eq]
  omega

theorem magnitudeBits_lt {n : Nat} (h : n < 0x10000000000000000) :
    magnitudeBits n 1 < infinityBits := by
  by_cases h0 : n = 0
  · subst h0
    decide
  · have length : n.log2 < 64 := (Nat.log2_lt h0).2 h
    have bound := leading_le n
    rw [magnitudeBits_eq h0 h, infinityBits, Nat.shiftLeft_eq]
    omega

theorem isFinite_ofInt {n : Int} (h : n.natAbs < 0x10000000000000000) : (ofInt n).isFinite :=
  isFinite_ofMagnitude _ (magnitudeBits_lt h)

end Binary64
end PullAlgebra
