import PullAlgebra.Proofs.Value.Rounding

/-!
# PullAlgebra.Proofs.Value.NumericOrder

Integers and doubles in one order, as far as it goes. Two integers compare exactly and every other
pair of numbers compares by the ranks of doubles. Rounding an integer to a double keeps the order but
not the differences: two integers may be rounded to one double, which is then equal to both.

* `Value.rank`: the rank of the double nearest to a number.
* `compare?_cases`: how two numbers compare.
* `Blurred`: two integers with the double that both are rounded to.
* `number_order_consistent_iff`: the comparison is consistent at three numbers unless they are that.
-/

namespace PullAlgebra
namespace Value

/-- Integers, and doubles other than a NaN. -/
def IsNumber : Value → Prop
  | integer _ => True
  | float x => ¬x.isNaN
  | _ => False

/-- The rank of the double nearest to a number. -/
def rank : Value → Int
  | integer i => Binary64.rank (Binary64.ofInt i.toInt)
  | float x => Binary64.rank x
  | _ => 0

/-- The first value is less than the second one, or equal to it. -/
def AtMost (v w : Value) : Prop := v.compare? w = some .lt ∨ v.compare? w = some .eq

/-- Two different integers with the double that both are rounded to, in the middle. -/
inductive Blurred : Value → Value → Value → Prop
  | rounded {i k : Int64} {x : Float} (apart : i ≠ k) (left : Binary64.ofInt i.toInt == x)
      (right : Binary64.ofInt k.toInt == x) : Blurred (integer i) (float x) (integer k)

theorem number_ofInt (i : Int64) : ¬(Binary64.ofInt i.toInt).isNaN := by
  have finite := Binary64.isFinite_ofInt (ColumnType.natAbs_toInt_lt i)
  rw [Binary64.number_iff]
  intro nan
  change (Binary64.ofInt i.toInt).toModel.unpack.isFinite = true at finite
  rw [nan] at finite
  cases finite

theorem rank_integer_mono {i j : Int64} (h : i.toInt ≤ j.toInt) :
    (integer i).rank ≤ (integer j).rank :=
  Binary64.rank_ofInt_mono h (ColumnType.natAbs_toInt_lt i) (ColumnType.natAbs_toInt_lt j)

theorem compare_toInt (i j : Int64) : compare i j = compare i.toInt j.toInt := by
  simp only [compare, compareOfLessAndEq, Int64.lt_iff_toInt_lt, Int64.toInt_inj]

variable {a b c v w : Value}

/-- Two integers compare as integers, and all other numbers by their ranks. -/
theorem compare?_cases (hv : v.IsNumber) (hw : w.IsNumber) :
    (∃ i j, v = integer i ∧ w = integer j ∧
      v.compare? w = some (compare i.toInt j.toInt)) ∨
      (∀ i j, v = integer i → w ≠ integer j) ∧ v.compare? w = some (compare v.rank w.rank) := by
  cases v with
  | integer i =>
    cases w with
    | integer j => exact .inl ⟨i, j, rfl, rfl, congrArg some (compare_toInt i j)⟩
    | float y => exact .inr ⟨nofun, Binary64.compareFloats?_eq_rank (number_ofInt i) hw⟩
    | _ => cases hw
  | float x =>
    cases w with
    | integer j => exact .inr ⟨nofun, Binary64.compareFloats?_eq_rank hv (number_ofInt j)⟩
    | float y => exact .inr ⟨nofun, Binary64.compareFloats?_eq_rank hv hw⟩
    | _ => cases hw
  | _ => cases hv

theorem compare_le_iff {m n : Int} (h : v.compare? w = some (compare m n)) : AtMost v w ↔ m ≤ n := by
  rw [AtMost, h, Option.some.injEq, Option.some.injEq, Int.compare_eq_lt, Int.compare_eq_eq]
  omega

theorem compare_eq_iff {m n : Int} (h : v.compare? w = some (compare m n)) :
    v.compare? w = some .eq ↔ m = n := by
  rw [h, Option.some.injEq, Int.compare_eq_eq]

theorem rank_le_of_atMost (hv : v.IsNumber) (hw : w.IsNumber) (h : AtMost v w) : v.rank ≤ w.rank := by
  rcases compare?_cases hv hw with ⟨i, j, rfl, rfl, exact⟩ | ⟨-, ranks⟩
  · exact rank_integer_mono ((compare_le_iff exact).1 h)
  · exact (compare_le_iff ranks).1 h

theorem rank_eq_of_equal (hv : v.IsNumber) (hw : w.IsNumber) (h : v.compare? w = some .eq) :
    v.rank = w.rank := by
  rcases compare?_cases hv hw with ⟨i, j, rfl, rfl, exact⟩ | ⟨-, ranks⟩
  · rw [Int64.toInt_inj.1 ((compare_eq_iff exact).1 h)]
  · exact (compare_eq_iff ranks).1 h

/-- Less or equal numbers are so in a chain, and equal ones too. -/
def Consistent (a b c : Value) : Prop :=
  (AtMost a b → AtMost b c → AtMost a c) ∧
    (a.compare? b = some .eq → b.compare? c = some .eq → a.compare? c = some .eq)

/-- The ends of a chain compare by their ranks if one of them is a double. -/
theorem consistent_of_ranks (ha : a.IsNumber) (hb : b.IsNumber) (hc : c.IsNumber)
    (ranks : a.compare? c = some (compare a.rank c.rank)) : Consistent a b c := by
  constructor
  · intro left right
    have := rank_le_of_atMost ha hb left
    have := rank_le_of_atMost hb hc right
    exact (compare_le_iff ranks).2 (by omega)
  · intro left right
    have := rank_eq_of_equal ha hb left
    have := rank_eq_of_equal hb hc right
    exact (compare_eq_iff ranks).2 (by omega)

theorem consistent_integers (i j k : Int64) : Consistent (integer i) (integer j) (integer k) := by
  have exact (m n : Int64) : (integer m).compare? (integer n) = some (compare m.toInt n.toInt) :=
    congrArg some (compare_toInt m n)
  unfold Consistent
  rw [compare_le_iff (exact i j), compare_le_iff (exact j k), compare_le_iff (exact i k),
    compare_eq_iff (exact i j), compare_eq_iff (exact j k), compare_eq_iff (exact i k)]
  omega

theorem blurred_iff {i k : Int64} {x : Float} (hx : ¬x.isNaN) :
    Blurred (integer i) (float x) (integer k) ↔
      i ≠ k ∧ (integer i).rank = (float x).rank ∧ (float x).rank = (integer k).rank := by
  have equal (j : Int64) : Binary64.ofInt j.toInt == x ↔ (integer j).rank = (float x).rank :=
    Binary64.beq_iff_rank (number_ofInt j) hx
  constructor
  · rintro ⟨apart, left, right⟩
    exact ⟨apart, (equal i).1 left, ((equal k).1 right).symm⟩
  · rintro ⟨apart, left, right⟩
    exact .rounded apart ((equal i).2 left) ((equal k).2 right.symm)

/-- Between two integers a double is consistent with them unless it is equal to both. -/
theorem consistent_around_double {i k : Int64} {x : Float} (hx : ¬x.isNaN) :
    Consistent (integer i) (float x) (integer k) ↔
      ¬Blurred (integer i) (float x) (integer k) := by
  have left : (integer i).compare? (float x) = some (compare (integer i).rank (float x).rank) :=
    Binary64.compareFloats?_eq_rank (number_ofInt i) hx
  have right : (float x).compare? (integer k) = some (compare (float x).rank (integer k).rank) :=
    Binary64.compareFloats?_eq_rank hx (number_ofInt k)
  have ends : (integer i).compare? (integer k) = some (compare i.toInt k.toInt) :=
    congrArg some (compare_toInt i k)
  rw [blurred_iff hx, Consistent, compare_le_iff left, compare_le_iff right, compare_le_iff ends,
    compare_eq_iff left, compare_eq_iff right, compare_eq_iff ends, Int64.toInt_inj]
  constructor
  · rintro ⟨-, equal⟩ ⟨apart, left, right⟩
    exact apart (equal left right)
  · intro distinct
    constructor
    · intro left right
      refine Decidable.byContradiction fun greater => ?_
      have order : (integer k).rank ≤ (integer i).rank := rank_integer_mono (by omega)
      refine distinct ⟨?_, by omega, by omega⟩
      rintro rfl
      exact greater (Int.le_refl _)
    · intro left right
      refine Decidable.byContradiction fun apart => ?_
      exact distinct ⟨apart, left, right⟩

/-- Integers up to `2^53` have doubles of their own. -/
theorem not_blurred_of_small {i k : Int64} {x : Float} (hx : ¬x.isNaN)
    (hi : i.toInt.natAbs ≤ 0x20000000000000) (hk : k.toInt.natAbs ≤ 0x20000000000000) :
    ¬Blurred (integer i) (float x) (integer k) := by
  rw [blurred_iff hx]
  rintro ⟨apart, left, right⟩
  have same : (integer i).rank = (integer k).rank := left.trans right
  rcases Int.lt_trichotomy i.toInt k.toInt with less | equal | greater
  · exact Int.ne_of_lt (Binary64.rank_ofInt_lt less hi hk) same
  · exact apart (Int64.toInt_inj.1 equal)
  · exact Int.ne_of_gt (Binary64.rank_ofInt_lt greater hk hi) same

/-- Any two numbers compare. The comparison is consistent at three of them unless two integers that
differ are rounded to the double between them, so it always is with integers up to `2^53`. -/
theorem number_order_consistent_iff {a b c : Value} (ha : a.IsNumber) (hb : b.IsNumber)
    (hc : c.IsNumber) :
    (∃ o, a.compare? b = some o) ∧ (Consistent a b c ↔ ¬Blurred a b c) ∧
      ((∀ i, a = integer i ∨ c = integer i → i.toInt.natAbs ≤ 0x20000000000000) →
        Consistent a b c) := by
  have compares : ∃ o, a.compare? b = some o := by
    rcases compare?_cases ha hb with ⟨_, _, -, -, exact⟩ | ⟨-, ranks⟩
    · exact ⟨_, exact⟩
    · exact ⟨_, ranks⟩
  refine ⟨compares, ?_⟩
  rcases compare?_cases ha hc with ⟨i, k, rfl, rfl, -⟩ | ⟨mixed, ranks⟩
  · cases b with
    | integer j =>
      have consistent := consistent_integers i j k
      exact ⟨⟨fun _ => nofun, fun _ => consistent⟩, fun _ => consistent⟩
    | float x =>
      have iff := consistent_around_double (i := i) (k := k) hb
      exact ⟨iff, fun small => iff.2 (not_blurred_of_small hb (small i (.inl rfl)) (small k (.inr rfl)))⟩
    | _ => cases hb
  · have consistent := consistent_of_ranks ha hb hc ranks
    refine ⟨⟨?_, fun _ => consistent⟩, fun _ => consistent⟩
    rintro - ⟨⟩
    exact mixed _ _ rfl rfl

theorem one_and_a_half_between :
    IsNumber (float 1.5) ∧ ¬Blurred (integer 1) (float 1.5) (integer 2) ∧
      (integer 1).compare? (float 1.5) = some .lt ∧ AtMost (float 1.5) (integer 2) ∧
      AtMost (integer 1) (integer 2) := by
  have number : IsNumber (float 1.5) := by
    change ¬_
    decide +kernel
  obtain ⟨-, consistent, small⟩ :=
    number_order_consistent_iff (a := integer 1) (c := integer 2) trivial number trivial
  have chain := small (by rintro i (h | h) <;> cases h <;> decide)
  have left : (integer 1).compare? (float 1.5) = some .lt := by decide +kernel
  have right : AtMost (float 1.5) (integer 2) := .inl (by decide +kernel)
  exact ⟨number, consistent.1 chain, left, right, chain.1 (.inl left) right⟩

/-- The first integer that is no double, next to the one that it is rounded to. -/
theorem rounded_neighbours_inconsistent :
    IsNumber (integer 9007199254740993) ∧ IsNumber (float 9007199254740992) ∧
      IsNumber (integer 9007199254740992) ∧
      (integer 9007199254740993).compare? (float 9007199254740992) = some .eq ∧
      (float 9007199254740992).compare? (integer 9007199254740992) = some .eq ∧
      (integer 9007199254740993).compare? (integer 9007199254740992) = some .gt ∧
      ¬Consistent (integer 9007199254740993) (float 9007199254740992)
        (integer 9007199254740992) := by
  have number : IsNumber (float 9007199254740992) := by
    change ¬_
    decide +kernel
  have left : (integer 9007199254740993).compare? (float 9007199254740992) = some .eq := by
    decide +kernel
  have right : (float 9007199254740992).compare? (integer 9007199254740992) = some .eq := by
    decide +kernel
  have ends : (integer 9007199254740993).compare? (integer 9007199254740992) = some .gt := by
    decide +kernel
  refine ⟨trivial, number, trivial, left, right, ends, ?_⟩
  rintro ⟨-, equal⟩
  cases ends.symm.trans (equal left right)

end Value
end PullAlgebra
