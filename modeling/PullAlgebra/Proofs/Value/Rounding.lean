import PullAlgebra.Proofs.Value.DoubleOrder

/-!
# PullAlgebra.Proofs.Value.Rounding

Integers and the doubles nearest to them. Rounding keeps the order of integers: with the same number
of bits the one significand is rounded like the other, and with fewer bits a number is not rounded
beyond the next power of two. Up to `2^53` nothing is rounded, so different integers have different
doubles.

* `magnitudeBits_eq`: the bits of the double, from the length of the integer and its leading bits.
* `magnitudeBits_mono`, `magnitudeBits_strictMono`: the order of natural numbers.
* `rank_ofInt_mono`, `rank_ofInt_lt`: the order of integers, by the ranks of their doubles.
-/

namespace PullAlgebra
namespace Binary64

/-! ## Quotients -/

theorem le_roundDiv (num den : Nat) : num / den ≤ roundDiv num den := by
  unfold roundDiv
  dsimp only
  split <;> omega

theorem roundDiv_one (num : Nat) : roundDiv num 1 = num := by
  simp [roundDiv, Nat.mod_one]

theorem roundDiv_mono {m n : Nat} (h : m ≤ n) (den : Nat) : roundDiv m den ≤ roundDiv n den := by
  have quotients : m / den ≤ n / den := Nat.div_le_div_right h
  rcases Nat.lt_or_eq_of_le quotients with less | same
  · calc roundDiv m den ≤ m / den + 1 := roundDiv_le m den
      _ ≤ n / den := less
      _ ≤ roundDiv n den := le_roundDiv n den
  · -- between the same two multiples the greater remainder is nearer to the upper one
    have remainders : m % den ≤ n % den := by
      have hm := Nat.div_add_mod m den
      have hn := Nat.div_add_mod n den
      rw [same] at hm
      omega
    unfold roundDiv
    dsimp only
    rw [same]
    split <;> split <;> omega

/-! ## Significands -/

variable {m n : Nat}

theorem log2_mono (hm : m ≠ 0) (h : m ≤ n) : m.log2 ≤ n.log2 :=
  (Nat.le_log2 (by omega)).2 (Nat.le_trans (Nat.log2_self_le hm) h)

theorem le_leading (h : n ≠ 0) : 0x10000000000000 ≤ leading n := by
  have below : 2 ^ n.log2 ≤ n := Nat.log2_self_le h
  refine Nat.le_trans ?_ (le_roundDiv _ _)
  rw [Nat.shiftLeft_eq, Nat.shiftLeft_eq, Nat.one_mul, Nat.le_div_iff_mul_le (Nat.two_pow_pos _)]
  have split : 0x10000000000000 * 2 ^ (n.log2 - 52) = 2 ^ n.log2 * 2 ^ (52 - n.log2) := by
    rw [← Nat.pow_add, show (0x10000000000000 : Nat) = 2 ^ 52 from by decide, ← Nat.pow_add]
    congr 1
    omega
  rw [split]
  exact Nat.mul_le_mul_right _ below

theorem leading_of_log2_le (h : n.log2 ≤ 52) : leading n = n <<< (52 - n.log2) := by
  rw [leading, Nat.sub_eq_zero_of_le h, Nat.shiftLeft_zero, roundDiv_one]

theorem leading_lt (h : n.log2 ≤ 52) : leading n < 0x20000000000000 := by
  have above : n < 2 ^ (n.log2 + 1) := Nat.lt_log2_self
  rw [leading_of_log2_le h, Nat.shiftLeft_eq]
  calc n * 2 ^ (52 - n.log2) < 2 ^ (n.log2 + 1) * 2 ^ (52 - n.log2) :=
        Nat.mul_lt_mul_of_pos_right above (Nat.two_pow_pos _)
    _ = 2 ^ 53 := by rw [← Nat.pow_add]; congr 1; omega
    _ = 0x20000000000000 := by decide

/-- A shorter integer is rounded to the next power of two at most. -/
theorem magnitudeBits_le_of_log2_lt (hm : m ≠ 0) (h0 : n ≠ 0) (h : n < 0x10000000000000000)
    (shorter : m.log2 < n.log2) : magnitudeBits m 1 ≤ magnitudeBits n 1 := by
  have less : m < n := Nat.lt_of_not_le fun reverse => by
    have := log2_mono h0 reverse
    omega
  have upper := leading_le m
  have lower := le_leading h0
  rw [magnitudeBits_eq hm (by omega), magnitudeBits_eq h0 h]
  omega

theorem magnitudeBits_mono (h : m ≤ n) (bound : n < 0x10000000000000000) :
    magnitudeBits m 1 ≤ magnitudeBits n 1 := by
  by_cases hm : m = 0
  · subst hm
    exact Nat.zero_le _
  · rcases Nat.lt_or_eq_of_le (log2_mono hm h) with shorter | same
    · exact magnitudeBits_le_of_log2_lt hm (by omega) bound shorter
    · rw [magnitudeBits_eq hm (by omega), magnitudeBits_eq (by omega) bound, leading, leading, same]
      have order : m <<< (52 - n.log2) ≤ n <<< (52 - n.log2) := by
        rw [Nat.shiftLeft_eq, Nat.shiftLeft_eq]
        exact Nat.mul_le_mul_right _ h
      have := roundDiv_mono order (1 <<< (n.log2 - 52))
      omega

/-- Nothing is rounded up to `2^53`. -/
theorem magnitudeBits_strictMono (h : m < n) (bound : n ≤ 0x20000000000000) :
    magnitudeBits m 1 < magnitudeBits n 1 := by
  have h0 : n ≠ 0 := by omega
  have lower := le_leading h0
  rw [magnitudeBits_eq h0 (by omega)]
  by_cases hm : m = 0
  · subst hm
    rw [show magnitudeBits 0 1 = 0 from rfl]
    omega
  · have short : m.log2 ≤ 52 := by
      have := (Nat.log2_lt hm).2 (show m < 2 ^ 53 by omega)
      omega
    have upper := leading_lt short
    have length := Nat.lt_or_eq_of_le (log2_mono hm (Nat.le_of_lt h))
    rw [magnitudeBits_eq hm (by omega)]
    rcases length with shorter | same
    · omega
    · have order : leading m < leading n := by
        rw [leading_of_log2_le short, leading_of_log2_le (same ▸ short), same, Nat.shiftLeft_eq,
          Nat.shiftLeft_eq]
        exact Nat.mul_lt_mul_of_pos_right h (Nat.two_pow_pos _)
      omega

/-! ## Integers -/

theorem toNat_signedBits (negative : Bool) {bits : Nat} (h : bits < infinityBits) :
    (UInt64.ofNat (if negative then 0x8000000000000000 + bits else bits)).toNat =
      if negative then 0x8000000000000000 + bits else bits := by
  rw [infinityBits, Nat.shiftLeft_eq] at h
  rw [UInt64.toNat_ofNat']
  split <;> omega

theorem toNat_toBits_ofMagnitude (negative : Bool) {bits : Nat} (h : bits < infinityBits) :
    (ofMagnitude negative bits).toBits.toNat =
      if negative then 0x8000000000000000 + bits else bits := by
  have word := toNat_signedBits negative h
  have finite : exponentField
      (UInt64.ofNat (if negative then 0x8000000000000000 + bits else bits)) ≠ 2047 := by
    rw [infinityBits, Nat.shiftLeft_eq] at h
    rw [exponentField, word, Nat.shiftRight_eq_div_pow]
    split <;> omega
  rw [ofMagnitude, toBits_ofBits fun top => absurd top finite, word]

theorem rank_ofMagnitude (negative : Bool) {bits : Nat} (h : bits < infinityBits) :
    rank (ofMagnitude negative bits) = if negative then -(bits : Int) else bits := by
  have word := toNat_toBits_ofMagnitude negative h
  rw [infinityBits, Nat.shiftLeft_eq] at h
  rw [rank, signField_eq, magnitudeField, word]
  cases negative with
  | true =>
    simp only [if_true]
    rw [if_pos (by omega)]
    change -((_ % _ : Nat) : Int) = _
    omega
  | false =>
    simp only [Bool.false_eq_true, if_false]
    rw [if_neg (by omega)]
    change ((_ % _ : Nat) : Int) = _
    omega

theorem rank_ofInt {n : Int} (h : n.natAbs < 0x10000000000000000) :
    rank (ofInt n) =
      if n < 0 then -(magnitudeBits n.natAbs 1 : Int) else magnitudeBits n.natAbs 1 := by
  rw [ofInt, nearest, rank_ofMagnitude _ (magnitudeBits_lt h)]
  simp

theorem rank_ofInt_mono {m n : Int} (h : m ≤ n) (hm : m.natAbs < 0x10000000000000000)
    (hn : n.natAbs < 0x10000000000000000) : rank (ofInt m) ≤ rank (ofInt n) := by
  rw [rank_ofInt hm, rank_ofInt hn]
  by_cases negative : n < 0
  · have := magnitudeBits_mono (show n.natAbs ≤ m.natAbs by omega) hm
    rw [if_pos negative, if_pos (by omega)]
    omega
  · rw [if_neg negative]
    split
    · omega
    · have := magnitudeBits_mono (show m.natAbs ≤ n.natAbs by omega) hn
      omega

theorem rank_ofInt_lt {m n : Int} (h : m < n) (hm : m.natAbs ≤ 0x20000000000000)
    (hn : n.natAbs ≤ 0x20000000000000) : rank (ofInt m) < rank (ofInt n) := by
  rw [rank_ofInt (by omega), rank_ofInt (by omega)]
  by_cases negative : n < 0
  · have := magnitudeBits_strictMono (show n.natAbs < m.natAbs by omega) hm
    rw [if_pos negative, if_pos (by omega)]
    omega
  · rw [if_neg negative]
    by_cases negative' : m < 0
    · have := magnitudeBits_strictMono (show 0 < m.natAbs by omega) hm
      rw [if_pos negative']
      omega
    · have := magnitudeBits_strictMono (show m.natAbs < n.natAbs by omega) hn
      rw [if_neg negative']
      omega

end Binary64
end PullAlgebra
