import PullAlgebra.Proofs.Relation.Growth
import PullAlgebra.Proofs.Tuple.Composition
import PullAlgebra.Proofs.Tuple.Joining

/-!
# PullAlgebra.Proofs.Relation.ColumnOrder

Nothing that is built from a schema depends on the order of its columns, beyond the order of what is
built. The index of a schema gives positions, so each operation is reduced to a look-up by name, which
finds the same in a permutation of the columns, or to the names as a whole.

* `Schema.has_of_sameColumns`, `Schema.hasTyped_of_sameColumns`: look-ups.
* `Schema.join_of_sameColumns`, `Schema.sameColumns_of_joins`: joins.
* `Relation.exists_ofTuples_iff`, `Relation.values_of_ofTuples`: relations from tuples.
* `operations_respect_column_order`: all of them, and projections, for schemas with the same columns.
-/

namespace PullAlgebra

namespace Schema

variable {r r' s s' : Schema}

theorem has_of_sameColumns (same : s.sameColumns s' = true) (name : String) :
    s.has name = s'.has name := by
  have names : s.names.Perm s'.names := (sameColumns_iff_perm.1 same).map Column.name
  rw [has, has, contains_index, contains_index, decide_eq_decide]
  exact names.mem_iff

theorem hasTyped_of_sameColumns (same : s.sameColumns s' = true) (name : String)
    (type : ColumnType) : s.hasTyped name type = s'.hasTyped name type := by
  rw [hasTyped, hasTyped, column?_of_sameColumns same]

/-! ## Joins -/

theorem perm_append (left : r.sameColumns r' = true) (right : s.sameColumns s' = true) :
    (r.columns ++ s.columns).Perm (r'.columns ++ s'.columns) :=
  (sameColumns_iff_perm.1 left).append (sameColumns_iff_perm.1 right)

theorem join_of_sameColumns (left : r.sameColumns r' = true) (right : s.sameColumns s' = true) :
    (∃ t, r.join s = .ok t) ↔ ∃ t, r'.join s' = .ok t := by
  rw [joinsByName.exists_join_iff, joinsByName.exists_join_iff]
  exact ((perm_append left right).map Column.name).nodup_iff

theorem sameColumns_of_joins (left : r.sameColumns r' = true) (right : s.sameColumns s' = true)
    {t t' : Schema} (joined : r.join s = .ok t) (joined' : r'.join s' = .ok t') :
    t.sameColumns t' = true := by
  rw [sameColumns_iff_perm, columns_of_join joined, columns_of_join joined']
  exact perm_append left right

end Schema

/-! ## Relations -/

namespace Relation

variable {schema schema' : Schema} {tuples : List Tuple} {r r' : Relation}

theorem aligned_of_ofTuples (h : ofTuples schema tuples = .ok r) :
    List.Forall₂ (fun t u => t.alignTo schema = .ok u) tuples r.tuples.toList := by
  rcases ofTuples_cases schema tuples with ⟨rows, _, aligned, built, -, whole⟩ | ⟨e, -, refused⟩
  · cases h.symm.trans built
    rw [whole]
    exact forall₂_of_mapM_eq_ok aligned
  · cases h.symm.trans refused

/-- Tuples make a relation exactly if each of them has the columns of the schema. -/
theorem exists_ofTuples_iff :
    (∃ r, ofTuples schema tuples = .ok r) ↔ ∀ t ∈ tuples, t.schema.sameColumns schema = true := by
  constructor
  · rintro ⟨r, built⟩ t ht
    obtain ⟨u, -, aligned⟩ := exists_of_forall₂_left (aligned_of_ofTuples built) ht
    exact Tuple.exists_alignTo_iff.1 ⟨u, aligned⟩
  · intro fit
    obtain ⟨rows, aligned⟩ := exists_forall₂ fun t ht => Tuple.exists_alignTo_iff.2 (fit t ht)
    rcases ofTuples_cases schema tuples with ⟨_, built, -, step, -, -⟩ | ⟨e, refused, -⟩
    · exact ⟨built, step⟩
    · cases (mapM_eq_ok_of_forall₂ aligned).symm.trans refused

/-- The rows hold what the tuples hold, whatever the order of the schema. -/
theorem values_of_ofTuples (h : ofTuples schema tuples = .ok r) (name : String) :
    (r.tuples.toList.map fun t => t.get? name) = tuples.map fun t => t.get? name := by
  refine (map_eq_map_iff_forall₂.2 ((aligned_of_ofTuples h).imp fun t u aligned => ?_)).symm
  exact ((Tuple.alignedTo aligned).get?_eq name).symm

theorem ofTuples_of_sameColumns (same : schema.sameColumns schema' = true) :
    (∃ r, ofTuples schema tuples = .ok r) ↔ ∃ r, ofTuples schema' tuples = .ok r := by
  rw [exists_ofTuples_iff, exists_ofTuples_iff]
  simp only [Schema.sameColumns_iff_perm] at same ⊢
  refine forall₂_congr fun t _ => ?_
  exact ⟨fun fits => fits.trans same, fun fits => fits.trans same.symm⟩

end Relation

/-- Schemas with the same columns can be exchanged: joins are there or not, and have the same columns;
a choice of columns gives the very same schema or error; a name finds the same column; and relations of
the same tuples are there or not, and hold the same values under each name, row by row. -/
theorem operations_respect_column_order {A A' B B' : Schema} (left : A.sameColumns A' = true)
    (right : B.sameColumns B' = true) :
    (((∃ s, A.join B = .ok s) ↔ ∃ s, A'.join B' = .ok s) ∧
      ∀ s s', A.join B = .ok s → A'.join B' = .ok s' → s.sameColumns s' = true) ∧
    (∀ outputs, A.project outputs = A'.project outputs) ∧
    (∀ name, A.has name = A'.has name ∧ A.column? name = A'.column? name ∧
      ∀ type, A.hasTyped name type = A'.hasTyped name type) ∧
    ∀ tuples, ((∃ r, Relation.ofTuples A tuples = .ok r) ↔
        ∃ r, Relation.ofTuples A' tuples = .ok r) ∧
      ∀ r r', Relation.ofTuples A tuples = .ok r → Relation.ofTuples A' tuples = .ok r' →
        ∀ name, (r.tuples.toList.map fun t => t.get? name) =
          r'.tuples.toList.map fun t => t.get? name := by
  refine ⟨⟨Schema.join_of_sameColumns left right, ?joins⟩, Schema.project_of_sameColumns left,
    ?names, fun tuples => ⟨Relation.ofTuples_of_sameColumns left, ?rows⟩⟩
  case joins =>
    intro s s' joined joined'
    exact Schema.sameColumns_of_joins left right joined joined'
  case names =>
    intro name
    exact ⟨Schema.has_of_sameColumns left name, Schema.column?_of_sameColumns left name,
      Schema.hasTyped_of_sameColumns left name⟩
  case rows =>
    intro r r' built built' name
    rw [Relation.values_of_ofTuples built, Relation.values_of_ofTuples built']

/-- Both operands in both orders. The column `b` is chosen twice, once under the name of `a`. -/
theorem swapped_columns_exchanged : ∃ A A' B B' s s' chosen t r r',
    A.columns = [⟨"a", .integer⟩, ⟨"b", .string⟩] ∧ A'.columns = [⟨"b", .string⟩, ⟨"a", .integer⟩] ∧
      B.columns = [⟨"c", .boolean⟩, ⟨"d", .float⟩] ∧ B'.columns = [⟨"d", .float⟩, ⟨"c", .boolean⟩] ∧
      A.join B = .ok s ∧ A'.join B' = .ok s' ∧ s ≠ s' ∧ s.sameColumns s' = true ∧
      A.project [⟨"b", some "a"⟩, ⟨"b", none⟩] = .ok chosen ∧
      A'.project [⟨"b", some "a"⟩, ⟨"b", none⟩] = .ok chosen ∧
      Relation.ofTuples A [t] = .ok r ∧ Relation.ofTuples A' [t] = .ok r' ∧
      (r'.tuples.toList.map fun u => u.get? "a") = [some (.integer 4)] := by
  let t : Tuple := ⟨[⟨⟨"b", .string⟩, .string "x"⟩, ⟨⟨"a", .integer⟩, .integer 4⟩],
    by simp [Field.name], by simp [Field.Stored, ColumnType.Stores, Value.type]⟩
  have schema (columns : List Column) (distinct : (columns.map Column.name).Nodup) :
      ∃ s : Schema, s.columns = columns := ⟨.ofDistinct _ distinct, Schema.columns_ofDistinct _⟩
  obtain ⟨A, first⟩ := schema [⟨"a", .integer⟩, ⟨"b", .string⟩] (by decide)
  obtain ⟨A', second⟩ := schema [⟨"b", .string⟩, ⟨"a", .integer⟩] (by decide)
  obtain ⟨B, third⟩ := schema [⟨"c", .boolean⟩, ⟨"d", .float⟩] (by decide)
  obtain ⟨B', fourth⟩ := schema [⟨"d", .float⟩, ⟨"c", .boolean⟩] (by decide)
  have left : A.sameColumns A' = true := by
    rw [Schema.sameColumns_iff_perm, first, second]
    exact .swap ..
  have right : B.sameColumns B' = true := by
    rw [Schema.sameColumns_iff_perm, third, fourth]
    exact .swap ..
  obtain ⟨⟨joins, same⟩, choices, -, relations⟩ := operations_respect_column_order left right
  obtain ⟨built, values⟩ := relations [t]
  obtain ⟨s, joined⟩ : ∃ s, A.join B = .ok s :=
    Schema.joinsByName.succeeds A B (by rw [first, third]; decide)
  obtain ⟨s', joined'⟩ := joins.1 ⟨s, joined⟩
  obtain ⟨chosen, projected⟩ : ∃ chosen, A.project [⟨"b", some "a"⟩, ⟨"b", none⟩] = .ok chosen :=
    Schema.exists_project (by simp [Schema.names, first]) (by decide)
  obtain ⟨r, taken⟩ : ∃ r, Relation.ofTuples A [t] = .ok r := by
    refine Relation.exists_ofTuples_iff.2 (List.forall_mem_singleton.2 ?_)
    rw [Schema.sameColumns_iff_perm, Tuple.columns_schema, first]
    exact .swap ..
  obtain ⟨r', taken'⟩ := built.1 ⟨r, taken⟩
  refine ⟨A, A', B, B', s, s', chosen, t, r, r', first, second, third, fourth, joined, joined', ?_,
    same s s' joined joined', projected, choices _ ▸ projected, taken, taken', ?_⟩
  case refine_1 =>
    intro merged
    have columns : A.columns ++ B.columns = A'.columns ++ B'.columns := by
      rw [← Schema.columns_of_join joined, ← Schema.columns_of_join joined', merged]
    simp [first, second] at columns
  case refine_2 =>
    rw [← values r r' taken taken' "a", Relation.values_of_ofTuples taken]
    rfl

end PullAlgebra
