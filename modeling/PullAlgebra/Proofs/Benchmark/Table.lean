import Mathlib.Algebra.Order.BigOperators.Group.Finset
import PullAlgebra.Proofs.Benchmark.Arguments
import PullAlgebra.Proofs.Benchmark.CyclicRelation
import PullAlgebra.Proofs.Benchmark.Measures
import PullAlgebra.Proofs.Benchmark.Remainders
import PullAlgebra.Proofs.Schema.Collision

/-!
# PullAlgebra.Proofs.Benchmark.Table

The result table of the benchmark for every command line. No relation and no join of it fails, so
the table has a row for each join that was asked for. A cross join counts all pairs of rows, and both
other joins the pairs whose row numbers have the same remainder.

* `length_matchesByLeft`: the matches of any two relations, row by row.
* `Cyclic`, `exists_relations`: the two relations of a run, which are built without a failure.
* `Cyclic.length_matches`: their matches, row by row, by the remainders of the row numbers.
* `table_eq`, `table_counts_matches`: the table.
-/

namespace PullAlgebra
namespace Benchmark

theorem length_matchesByLeft {r s : Relation} {schema : Schema}
    (joined : r.schema.join s.schema = .ok schema) (keys : List (String × String)) :
    (matchesByLeft r s keys).length =
      (r.tuples.toList.map fun t => s.tuples.toList.countP fun u => t.agrees u keys).sum := by
  rw [matchesByLeft, List.length_flatMap]
  congr 1
  refine List.map_congr_left ?_
  intro t ht
  rw [List.length_filterMap_eq_countP]
  refine List.countP_congr ?_
  intro u hu
  obtain ⟨v, combined, -⟩ := Tuple.exists_join joined (r.aligned t (Array.mem_toList_iff.1 ht))
    (s.aligned u (Array.mem_toList_iff.1 hu))
  rw [combined]
  cases t.agrees u keys <;> simp [Except.toOption]

/-- What the two relations of a run consist of. -/
structure Cyclic (o : Options) (r s : Relation) : Prop where
  leftColumns : r.schema.columns = [⟨"r_key", .integer⟩, ⟨"r_payload", .string⟩]
  rightColumns : s.schema.columns = [⟨"s_key", .integer⟩, ⟨"s_payload", .string⟩]
  leftRows : r.tuples.toList = (List.range o.leftRows).map
    (cyclicRow "r_key" "r_payload" (by decide) o.keyCardinality)
  rightRows : s.tuples.toList = (List.range o.rightRows).map
    (cyclicRow "s_key" "s_payload" (by decide) o.keyCardinality)

theorem exists_relations {o : Options} (left : o.leftRows ≤ 2 ^ 63) (right : o.rightRows ≤ 2 ^ 63) :
    ∃ r s, relations o = .ok (r, s) ∧ Cyclic o r s := by
  obtain ⟨r, hr, leftColumns, leftRows⟩ :=
    exists_cyclicRelation (by decide : "r_key" ≠ "r_payload") o.keyCardinality left
  obtain ⟨s, hs, rightColumns, rightRows⟩ :=
    exists_cyclicRelation (by decide : "s_key" ≠ "s_payload") o.keyCardinality right
  refine ⟨r, s, ?_, leftColumns, rightColumns, leftRows, rightRows⟩
  simp only [relations, hr, hs]

section Relations

variable {o : Options} {r s : Relation} (h : Cyclic o r s)
include h

theorem Cyclic.exists_join : ∃ schema, r.schema.join s.schema = .ok schema := by
  refine Schema.exists_join_of_apart ?_
  simp [Schema.names, h.leftColumns, h.rightColumns]

theorem Cyclic.paired : Paired r.schema s.schema ("r_key", "s_key") (0, 0) := by
  refine ⟨?_, ?_, ⟨"r_key", .integer⟩, ⟨"s_key", .integer⟩, ?_, ?_, rfl⟩
  · simp [Schema.indexOf?_eq_some_iff, Schema.names, h.leftColumns]
  · simp [Schema.indexOf?_eq_some_iff, Schema.names, h.rightColumns]
  · simp [h.leftColumns]
  · simp [h.rightColumns]

theorem Cyclic.size_mul_size : r.size * s.size = o.leftRows * o.rightRows := by
  have rows : r.size = o.leftRows := by
    rw [Relation.size, ← Array.length_toList, h.leftRows, List.length_map, List.length_range]
  have rows' : s.size = o.rightRows := by
    rw [Relation.size, ← Array.length_toList, h.rightRows, List.length_map, List.length_range]
  rw [rows, rows']

/-- The matches of each row are the rows of the other relation whose numbers have the same
remainder. -/
theorem Cyclic.length_matches (left : o.leftRows ≤ 2 ^ 63) (right : o.rightRows ≤ 2 ^ 63) :
    (matchesByLeft r s [("r_key", "s_key")]).length = ∑ i ∈ Finset.range o.leftRows,
      Nat.count (fun j => j % max o.keyCardinality 1 = i % max o.keyCardinality 1) o.rightRows := by
  obtain ⟨schema, joined⟩ := h.exists_join
  rw [length_matchesByLeft joined, h.leftRows, h.rightRows, List.map_map]
  refine (congrArg List.sum (List.map_congr_left ?_)).trans rfl
  intro i hi
  rw [Function.comp_apply, List.countP_map]
  refine List.countP_congr ?_
  intro j hj
  rw [List.mem_range] at hi hj
  rw [Function.comp_apply, agrees_cyclicRow (by omega) (by omega)]
  rfl

end Relations

/-- The rows of the selected joins, in the order cross, theta, hash. -/
def Strategy.listed {τ : Type} (strategy : Strategy) (cross theta hash : Row τ) : List (Row τ) :=
  match strategy with
  | .cross => [cross]
  | .theta => [theta]
  | .hash => [hash]
  | .all => [cross, theta, hash]

theorem table_eq {o : Options} {r s : Relation} (built : relations o = .ok (r, s))
    (h : Cyclic o r s) {matching : Nat}
    (count : (matchesByLeft r s [("r_key", "s_key")]).length = matching) :
    (Request.run o).table = o.strategy.listed (.counted "cross" (o.leftRows * o.rightRows) false)
      (.counted "theta" matching true) (.counted "hash" matching true) := by
  obtain ⟨schema, joined⟩ := h.exists_join
  have cross := measure_cross joined
  have theta := measure_theta joined (.cons h.paired .nil)
  have hash := measure_hash joined (.cons h.paired .nil) (by simp)
  rw [h.size_mul_size] at cross
  rw [count] at theta hash
  have theta : measure untimed (.theta (.columnsEqual "r_key" "s_key")) r s = _ := theta
  rw [Request.table, report, built]
  cases o.strategy <;>
    simp [Strategy.joins, Strategy.listed, cross, theta, hash, Outcomes.rows, Join.name,
      Row.counted, Except.toOption]

/-- The table for all numbers of rows up to `2 ^ 63` and all numbers of keys. There is a command line
for them, the relations are built, and the table lists the selected joins. A cross join has all
pairs of rows and is not replayed. The others have the pairs with equal remainders, forward and when
they are replayed: for each remainder the rows of both relations that have it. The closed form counts
whole cycles and the rows after them. -/
theorem table_counts_matches {o : Options} {c : Nat} (cycle : c = max o.keyCardinality 1)
    (left : o.leftRows ≤ 2 ^ 63) (right : o.rightRows ≤ 2 ^ 63)
    (fits : o.leftRows * o.rightRows < 2 ^ 64) :
    (o.keyCardinality < 2 ^ 64 → Request.ofArguments o.arguments = .run o) ∧
    (∃ r s, relations o = .ok (r, s)) ∧
    ∃ matching,
      (∀ arguments, Request.ofArguments arguments = .run o →
        (Request.ofArguments arguments).exitCode = 0 ∧
        (Request.ofArguments arguments).table =
          o.strategy.listed (.counted "cross" (o.leftRows * o.rightRows) false)
            (.counted "theta" matching true) (.counted "hash" matching true)) ∧
      matching < 2 ^ 64 ∧
      matching = (∑ k ∈ Finset.range c, Nat.count (fun i => i % c = k) o.leftRows *
        Nat.count (fun j => j % c = k) o.rightRows) ∧
      ∀ qm rm qn rn, o.leftRows = c * qm + rm → rm < c → o.rightRows = c * qn + rn → rn < c →
        matching = c * qm * qn + qm * rn + qn * rm + min rm rn := by
  subst cycle
  obtain ⟨r, s, built, cyclic⟩ := exists_relations left right
  have count := cyclic.length_matches left right
  have byRemainder := sum_counts_by_remainder (c := max o.keyCardinality 1) (by omega) o.leftRows
    o.rightRows
  refine ⟨ofArguments_arguments (by omega) (by omega), ⟨r, s, built⟩,
    (matchesByLeft r s [("r_key", "s_key")]).length, ?_, ?_, count.trans byRemainder, ?_⟩
  · intro arguments read
    rw [read]
    exact ⟨rfl, table_eq built cyclic rfl⟩
  · -- no row has more matches than there are rows on the other side
    have bound := Finset.sum_le_card_nsmul (Finset.range o.leftRows) _ o.rightRows fun i _ =>
      Nat.count_le (fun j => j % max o.keyCardinality 1 = i % max o.keyCardinality 1)
    rw [← count, Finset.card_range, smul_eq_mul] at bound
    omega
  · intro qm rm qn rn leftRows hm rightRows hn
    rw [count, byRemainder, leftRows, rightRows, sum_counts_closed hm hn]

/-- Thirty rows and twenty rows with five keys: six rows and four rows for each key. The numbers may
also stand behind equals signs. -/
theorem table_of_five_keys :
    (Request.ofArguments ["--left-rows=30", "--right-rows", "20", "--key-cardinality=5"]).table =
      [⟨"cross", ⟨600, ()⟩, none⟩, ⟨"theta", ⟨120, ()⟩, some ⟨120, ()⟩⟩,
        ⟨"hash", ⟨120, ()⟩, some ⟨120, ()⟩⟩] := by
  have read : Request.ofArguments ["--left-rows=30", "--right-rows", "20", "--key-cardinality=5"] =
      .run ⟨30, 20, 5, .all⟩ := by decide +kernel
  obtain ⟨-, -, matching, listed, -, -, closed⟩ :=
    table_counts_matches (o := ⟨30, 20, 5, .all⟩) (c := 5) rfl (by decide) (by decide) (by decide)
  obtain rfl : matching = 120 := closed 6 0 4 0 rfl (by decide) rfl (by decide)
  exact (listed _ read).2

end Benchmark
end PullAlgebra
