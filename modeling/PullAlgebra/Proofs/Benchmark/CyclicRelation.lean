import PullAlgebra.Benchmark
import PullAlgebra.Proofs.Relation.Texts
import PullAlgebra.Proofs.Source.EquiJoin

/-!
# PullAlgebra.Proofs.Benchmark.CyclicRelation

The synthetic relations row by row. All texts of a row are read back, as long as the row numbers are
integers of 64 bits, so the relation is built; and two rows agree in their keys if their numbers
have the same remainder.

* `cyclicRow`: the row with a number.
* `exists_cyclicRelation`: the relation of the first rows.
* `agrees_cyclicRow`: when two rows agree.
-/

namespace PullAlgebra
namespace Benchmark

def keyOf (cardinality i : Nat) : Nat := i % max cardinality 1

/-- The row with a number: its key, and the number itself in a text. -/
def cyclicRow (key payload : String) (apart : key ≠ payload) (cardinality i : Nat) : Tuple where
  fields := [⟨⟨key, .integer⟩, .integer (Int64.ofInt (keyOf cardinality i))⟩,
    ⟨⟨payload, .string⟩, .string ("row-" ++ String.ofList (Numeral.digits i))⟩]
  distinct := by simpa [Field.name] using apart
  stored := by simp [Field.Stored, ColumnType.Stores, Value.type]

section Rows

theorem keyOf_le (cardinality i : Nat) : keyOf cardinality i ≤ i := Nat.mod_le _ _

variable {key payload : String} (apart : key ≠ payload) (cardinality : Nat)

theorem exists_pushTexts_cyclicRow {r : Relation} {i : Nat}
    (columns : r.schema.columns = [⟨key, .integer⟩, ⟨payload, .string⟩]) (below : i < 2 ^ 63) :
    ∃ grown, r.pushTexts [(key, String.ofList (Numeral.digits (keyOf cardinality i))),
        (payload, "row-" ++ String.ofList (Numeral.digits i))] = ⟨.ok (), grown⟩ ∧
      grown.schema = r.schema ∧
      grown.tuples = r.tuples.push (cyclicRow key payload apart cardinality i) := by
  refine Relation.exists_pushTexts columns.symm ?_
  have number := ColumnType.read?_digits (Nat.lt_of_le_of_lt (keyOf_le cardinality i) below)
  have first := Relation.readField_of_read? (r := r) (c := ⟨key, .integer⟩) (by simp [columns]) number
  have second := Relation.readField_of_read? (r := r) (c := ⟨payload, .string⟩) (by simp [columns])
    (rfl : ColumnType.string.read? ("row-" ++ String.ofList (Numeral.digits i)) = _)
  exact .cons first (.cons second .nil)

theorem exists_addCyclicRows {r : Relation} {i count : Nat}
    (columns : r.schema.columns = [⟨key, .integer⟩, ⟨payload, .string⟩])
    (below : i + count ≤ 2 ^ 63) :
    ∃ grown, addCyclicRows key payload cardinality i count r = .ok grown ∧
      grown.schema = r.schema ∧ grown.tuples.toList =
        r.tuples.toList ++ (List.range' i count).map (cyclicRow key payload apart cardinality) := by
  induction count generalizing i r with
  | zero => exact ⟨r, rfl, rfl, by simp⟩
  | succ count ih =>
    obtain ⟨next, pushed, schema, tuples⟩ :=
      exists_pushTexts_cyclicRow apart cardinality columns (by omega : i < 2 ^ 63)
    obtain ⟨grown, added, schema', tuples'⟩ :=
      ih (r := next) (i := i + 1) (schema ▸ columns) (by omega)
    refine ⟨grown, ?_, schema'.trans schema, ?_⟩
    · unfold keyOf at pushed
      simp only [addCyclicRows, pushed, Reply.kept_ok, added]
    · rw [tuples', tuples, List.range'_succ]
      simp

theorem exists_cyclicRelation {rows : Nat} (below : rows ≤ 2 ^ 63) :
    ∃ r, cyclicRelation key payload rows cardinality = .ok r ∧
      r.schema.columns = [⟨key, .integer⟩, ⟨payload, .string⟩] ∧
      r.tuples.toList = (List.range rows).map (cyclicRow key payload apart cardinality) := by
  have distinct : ([⟨key, .integer⟩, ⟨payload, .string⟩].map Column.name).Nodup := by
    simpa using apart
  obtain ⟨schema, built⟩ := Schema.exists_ofColumns distinct
  have columns := Schema.columns_of_ofColumns built
  obtain ⟨r, added, same, tuples⟩ :=
    exists_addCyclicRows apart cardinality (r := .empty schema) columns (by omega : 0 + rows ≤ 2 ^ 63)
  refine ⟨r, ?_, same ▸ columns, ?_⟩
  · simp only [cyclicRelation, built, added]
  · rw [tuples, List.range_eq_range']
    rfl

end Rows

theorem ofInt_inj {m n : Nat} (hm : m < 2 ^ 63) (hn : n < 2 ^ 63) :
    Int64.ofInt m = Int64.ofInt n ↔ m = n := by
  constructor
  · intro same
    have back := congrArg Int64.toInt same
    rw [Integer64.toInt_ofInt ⟨by omega, by omega⟩, Integer64.toInt_ofInt ⟨by omega, by omega⟩] at back
    omega
  · rintro rfl
    rfl

theorem agrees_cyclicRow {key payload key' payload' : String} {apart : key ≠ payload}
    {apart' : key' ≠ payload'} {cardinality i j : Nat} (hi : i < 2 ^ 63) (hj : j < 2 ^ 63) :
    (cyclicRow key payload apart cardinality i).agrees
        (cyclicRow key' payload' apart' cardinality j) [(key, key')] =
      decide (keyOf cardinality j = keyOf cardinality i) := by
  have left : (cyclicRow key payload apart cardinality i).get? key =
      some (.integer (Int64.ofInt (keyOf cardinality i))) := by
    simp [Tuple.get?, Tuple.field?, cyclicRow, Field.name]
  have right : (cyclicRow key' payload' apart' cardinality j).get? key' =
      some (.integer (Int64.ofInt (keyOf cardinality j))) := by
    simp [Tuple.get?, Tuple.field?, cyclicRow, Field.name]
  have same := ofInt_inj (Nat.lt_of_le_of_lt (keyOf_le cardinality i) hi)
    (Nat.lt_of_le_of_lt (keyOf_le cardinality j) hj)
  rw [Bool.eq_iff_iff, decide_eq_true_eq, eq_comm (a := keyOf cardinality j), ← same]
  simp [Tuple.agrees, Tuple.agreesOn, left, right, Value.equal]

end Benchmark
end PullAlgebra
