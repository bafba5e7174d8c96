import PullAlgebra.Proofs.Relation.OneColumn
import PullAlgebra.Proofs.Relation.Rebuilt
import PullAlgebra.Proofs.Source.Construction
import PullAlgebra.Proofs.Source.CrossJoin
import PullAlgebra.Proofs.Tuple.Joining

/-!
# PullAlgebra.Proofs.Relation.Product

Cross joins whose rows become a relation, which can be joined again. As lists of fields the rows of
a cross join are the rows of both relations, one after the other, in two nested loops. Three nested
loops come to the same whichever two of them are run beforehand.

* `Relation.cross`: the relation of a cross join.
* `CrossJoin.exists_collect`: the rows of a cross join, as lists of fields.
* `Relation.exists_cross`: the relation is there as soon as the schemas can be joined.
* `cross_joins_associate`: three relations, in both groupings.
-/

namespace PullAlgebra

/-- Every list of the first kind followed by every list of the second one, by those of the first. -/
def products {α : Type} (as bs : List (List α)) : List (List α) :=
  as.flatMap fun a => bs.map fun b => a ++ b

theorem products_assoc {α : Type} (as bs cs : List (List α)) :
    products (products as bs) cs = products as (products bs cs) := by
  simp only [products, List.flatMap_assoc, List.flatMap_map, List.map_flatMap, List.map_map,
    Function.comp_def, List.append_assoc]

namespace Relation

/-- The rows as lists of fields. -/
def rows (r : Relation) : List (List Field) := r.tuples.toList.map Tuple.fields

/-- The relation of all rows that the cross join of two relations yields. -/
def cross (r s : Relation) : Except QueryError Relation := do
  let j ← liftTable (CrossJoin.ofRelations r s)
  let rows ← (collect j).result
  liftTable (ofTuples j.schema rows.toList)

end Relation

variable {r s t : Relation} {schema : Schema}

theorem exists_combined_rows (joined : r.schema.join s.schema = .ok schema) :
    ∃ tuples : List Tuple, combinations r s = tuples.map .ok ∧
      tuples.map Tuple.fields = products r.rows s.rows := by
  obtain ⟨tuples, whole⟩ := exists_combinations joined
  refine ⟨tuples, whole, ?_⟩
  have fields : (tuples.map Tuple.fields).map (Except.ok (ε := TableError)) =
      (products r.rows s.rows).map .ok := calc
    _ = (combinations r s).map (Except.map Tuple.fields) := by
      rw [whole, List.map_map, List.map_map]
      rfl
    _ = _ := by
      simp only [combinations, products, Relation.rows, List.map_flatMap, List.map_map,
        List.flatMap_map]
      refine List.flatMap_congr fun t ht => List.map_congr_left fun u hu => ?_
      obtain ⟨v, hv, fields⟩ := Tuple.exists_join joined (r.aligned t (Array.mem_toList_iff.1 ht))
        (s.aligned u (Array.mem_toList_iff.1 hu))
      rw [Function.comp_apply, hv]
      exact congrArg Except.ok fields
  exact List.map_injective_iff.2 (fun _ _ => Except.ok.inj) fields

theorem CrossJoin.exists_collect (joined : r.schema.join s.schema = .ok schema) :
    ∃ j rows, ofRelations r s = .ok j ∧ j.schema = schema ∧ (collect j).result = .ok rows ∧
      rows.toList.map Tuple.fields = products r.rows s.rows := by
  obtain ⟨tuples, whole, fields⟩ := exists_combined_rows joined
  have run := emits_combinations (j := ⟨r, s, schema, joined, .first, .running⟩) rfl rfl
  rw [whole, List.map_map] at run
  exact ⟨_, _, ofRelations_of_join joined, rfl, collect_of_emits rfl run, fields⟩

theorem columns_of_products {tuples : List Tuple} (joined : r.schema.join s.schema = .ok schema)
    (fields : tuples.map Tuple.fields = products r.rows s.rows) :
    ∀ v ∈ tuples, v.columns = schema.columns := by
  intro v hv
  have member : v.fields ∈ products r.rows s.rows := by
    rw [← fields]
    exact List.mem_map_of_mem hv
  simp only [products, Relation.rows, List.mem_flatMap, List.mem_map] at member
  obtain ⟨_, ⟨t, ht, rfl⟩, _, ⟨u, hu, rfl⟩, whole⟩ := member
  rw [Tuple.columns, ← whole, List.map_append, Schema.columns_of_join joined,
    ← r.aligned t (Array.mem_toList_iff.1 ht), ← s.aligned u (Array.mem_toList_iff.1 hu)]
  rfl

/-- The rows of a cross join fit its schema as they are. -/
theorem Relation.exists_cross (joined : r.schema.join s.schema = .ok schema) :
    ∃ p, r.cross s = .ok p ∧ p.schema = schema ∧ p.rows = products r.rows s.rows := by
  obtain ⟨j, rows, built, rfl, collected, fields⟩ := CrossJoin.exists_collect joined
  obtain ⟨p, taken, schema, tuples⟩ := exists_ofTuples (columns_of_products joined fields)
  refine ⟨p, ?_, schema, ?_⟩
  · rw [cross, built]
    change ((collect j).result >>= fun rows => liftTable (ofTuples j.schema rows.toList)) = _
    rw [collected]
    change liftTable (ofTuples j.schema rows.toList) = _
    rw [taken]
    rfl
  · rw [Relation.rows, tuples]
    exact fields

/-- Of three relations without a common name, the first two can be crossed beforehand or the last two.
Each step succeeds, and both cross joins are collected as the same rows under the same schema: all
triples of rows, in three nested loops. -/
theorem cross_joins_associate (rs : r.schema.names.Disjoint s.schema.names)
    (rt : r.schema.names.Disjoint t.schema.names) (st : s.schema.names.Disjoint t.schema.names) :
    ∃ left right j k rows, r.cross s = .ok left ∧ s.cross t = .ok right ∧
      CrossJoin.ofRelations left t = .ok j ∧ CrossJoin.ofRelations r right = .ok k ∧
      (collect j).result = .ok rows ∧ (collect k).result = .ok rows ∧ j.schema = k.schema ∧
      j.schema.columns = r.schema.columns ++ s.schema.columns ++ t.schema.columns ∧
      rows.toList.map Tuple.fields = r.tuples.toList.flatMap fun a =>
        s.tuples.toList.flatMap fun b => t.tuples.toList.map fun c =>
          a.fields ++ b.fields ++ c.fields := by
  have distinct : ((r.schema.columns ++ s.schema.columns ++ t.schema.columns).map
      Column.name).Nodup := by
    rw [List.map_append, List.map_append]
    refine (r.schema.distinct.append s.schema.distinct rs).append t.schema.distinct ?_
    exact List.disjoint_append_left.2 ⟨rt, st⟩
  obtain ⟨first, joinedLeft, firstColumns⟩ :=
    Schema.joinsByName.exists_part distinct (List.sublist_append_left ..)
  obtain ⟨last, joinedRight, lastColumns⟩ := Schema.joinsByName.exists_part distinct
    (by rw [List.append_assoc]; exact List.sublist_append_right ..)
  obtain ⟨left, crossedLeft, rfl, rowsLeft⟩ := Relation.exists_cross joinedLeft
  obtain ⟨right, crossedRight, rfl, rowsRight⟩ := Relation.exists_cross joinedRight
  obtain ⟨whole, joined⟩ := Schema.joinsByName.succeeds left.schema t.schema (by rwa [firstColumns])
  have columns : whole.columns = r.schema.columns ++ s.schema.columns ++ t.schema.columns := by
    rw [Schema.columns_of_join joined, firstColumns]
  have joined' : r.schema.join right.schema = .ok whole := by
    rw [Schema.joinsByName.join_eq_ok_iff, columns, lastColumns, List.append_assoc]
  obtain ⟨j, rows, built, schema, collected, fields⟩ := CrossJoin.exists_collect joined
  obtain ⟨k, rows', built', schema', collected', fields'⟩ := CrossJoin.exists_collect joined'
  rw [rowsLeft, products_assoc] at fields
  rw [rowsRight] at fields'
  have same : rows = rows' := Array.toList_inj.1
    (List.map_injective_iff.2 (fun _ _ => Tuple.ext_fields) (fields.trans fields'.symm))
  subst same
  refine ⟨left, right, j, k, rows, crossedLeft, crossedRight, built, built', collected, collected',
    schema.trans schema'.symm, schema ▸ columns, ?_⟩
  rw [fields]
  simp only [products, Relation.rows, List.flatMap_map, List.map_flatMap, List.map_map,
    Function.comp_def, List.append_assoc]

/-- Rows of the first relation vary slowest in both groupings. -/
theorem three_columns_crossed_both_ways :
    ∃ (r s t left right : Relation) (j k : CrossJoin) (rows : Array Tuple),
      r.cross s = .ok left ∧ s.cross t = .ok right ∧ CrossJoin.ofRelations left t = .ok j ∧
      CrossJoin.ofRelations r right = .ok k ∧ (collect j).result = .ok rows ∧
      (collect k).result = .ok rows ∧ j.schema = k.schema ∧
      rows.toList.map Tuple.values =
        [[.integer 1, .string "x", .boolean true], [.integer 1, .string "x", .boolean false],
          [.integer 1, .string "y", .boolean true], [.integer 1, .string "y", .boolean false],
          [.integer 2, .string "x", .boolean true], [.integer 2, .string "x", .boolean false],
          [.integer 2, .string "y", .boolean true], [.integer 2, .string "y", .boolean false]] := by
  let r := Relation.ofColumn ⟨"a", .integer⟩ [.integer 1, .integer 2] (by decide)
  let s := Relation.ofColumn ⟨"b", .string⟩ [.string "x", .string "y"] (by decide)
  let t := Relation.ofColumn ⟨"c", .boolean⟩ [.boolean true, .boolean false] (by decide)
  have rs : r.schema.names.Disjoint s.schema.names := by simp [r, s, Schema.names]
  have rt : r.schema.names.Disjoint t.schema.names := by simp [r, t, Schema.names]
  have st : s.schema.names.Disjoint t.schema.names := by simp [s, t, Schema.names]
  obtain ⟨left, right, j, k, rows, crossed, crossed', built, built', collected, collected', schema,
    -, fields⟩ := cross_joins_associate rs rt st
  refine ⟨r, s, t, left, right, j, k, rows, crossed, crossed', built, built', collected, collected',
    schema, ?_⟩
  have values : rows.toList.map Tuple.values =
      (rows.toList.map Tuple.fields).map (List.map Field.value) := List.map_map.symm
  rw [values, fields]
  rfl

end PullAlgebra
