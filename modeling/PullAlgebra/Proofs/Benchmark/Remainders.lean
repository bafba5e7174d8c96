import Mathlib.Algebra.BigOperators.Ring.Finset
import Mathlib.Algebra.Group.Action.Defs
import Mathlib.Data.Int.CardIntervalMod
import Mathlib.Tactic.Ring

/-!
# PullAlgebra.Proofs.Benchmark.Remainders

How many pairs of row numbers have the same remainder. The first rows of two relations whose keys
repeat in cycles of one length make as many matches.

* `sum_counts_by_remainder`: row by row, and remainder by remainder.
* `sum_counts_closed`: the number in terms of whole cycles and the rows after them.
-/

namespace PullAlgebra
namespace Benchmark

theorem sum_counts_by_remainder {c : Nat} (positive : 0 < c) (m n : Nat) :
    (∑ i ∈ Finset.range m, Nat.count (fun j => j % c = i % c) n) =
      ∑ k ∈ Finset.range c, Nat.count (fun i => i % c = k) m * Nat.count (fun j => j % c = k) n := by
  have remainder : ∀ i ∈ Finset.range m, i % c ∈ Finset.range c := by
    intro i _
    exact Finset.mem_range.2 (Nat.mod_lt i positive)
  rw [← Finset.sum_fiberwise_of_maps_to remainder]
  refine Finset.sum_congr rfl ?_
  intro k _
  have same : ∀ i ∈ (Finset.range m).filter fun i => i % c = k,
      Nat.count (fun j => j % c = i % c) n = Nat.count (fun j => j % c = k) n := by
    intro i hi
    rw [(Finset.mem_filter.1 hi).2]
  rw [Finset.sum_const_nat same, Nat.count_eq_card_filter_range (fun i => i % c = k) m]

/-- After `q` whole cycles and `r` more rows, the first `r` remainders stand once more than the
others. -/
theorem count_remainder {c k q r : Nat} (hk : k < c) (hr : r < c) :
    Nat.count (fun i => i % c = k) (c * q + r) = q + if k < r then 1 else 0 := by
  have positive : 0 < c := by omega
  have counted := Nat.count_modEq_card (c * q + r) positive k
  simp only [Nat.ModEq, Nat.mod_eq_of_lt hk, Nat.mul_add_div positive, Nat.div_eq_of_lt hr,
    Nat.mul_add_mod, Nat.mod_eq_of_lt hr, Nat.add_zero] at counted
  exact counted

theorem sum_ones_below (c r : Nat) :
    (∑ k ∈ Finset.range c, if k < r then 1 else 0) = min c r := by
  induction c with
  | zero => simp
  | succ c ih =>
    rw [Finset.sum_range_succ, ih]
    split <;> omega

theorem sum_counts_closed {c qm rm qn rn : Nat} (hm : rm < c) (hn : rn < c) :
    (∑ k ∈ Finset.range c, Nat.count (fun i => i % c = k) (c * qm + rm) *
        Nat.count (fun j => j % c = k) (c * qn + rn)) =
      c * qm * qn + qm * rn + qn * rm + min rm rn := by
  have product : ∀ k ∈ Finset.range c, Nat.count (fun i => i % c = k) (c * qm + rm) *
        Nat.count (fun j => j % c = k) (c * qn + rn) =
      qm * qn + qm * (if k < rn then 1 else 0) + qn * (if k < rm then 1 else 0) +
        if k < min rm rn then 1 else 0 := by
    intro k hk
    have below := Finset.mem_range.1 hk
    rw [count_remainder below hm, count_remainder below hn]
    by_cases h : k < rm <;> by_cases h' : k < rn <;> simp [h, h'] <;> ring
  rw [Finset.sum_congr rfl product]
  simp only [Finset.sum_add_distrib, ← Finset.mul_sum, sum_ones_below, Finset.sum_const,
    Finset.card_range, smul_eq_mul]
  rw [min_eq_right hm.le, min_eq_right hn.le, min_eq_right (by omega : min rm rn ≤ c)]
  ring

end Benchmark
end PullAlgebra
