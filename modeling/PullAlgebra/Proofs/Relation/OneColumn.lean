import PullAlgebra.Proofs.Schema.Position

/-!
# PullAlgebra.Proofs.Relation.OneColumn

Relations with a single column and one row for each value of a list. Two of them can be joined when
their columns have different names.

* `Relation.ofColumn`: the relation.
* `Relation.join_ofColumn`: the schema of two of them together.
* `Relation.project_ofColumn`: the schema with the column under another name.
-/

namespace PullAlgebra

instance (type : ColumnType) : (v : Value) → Decidable (type.Stores v)
  | .boolean b => decidable_of_iff ((Value.boolean b).type = type) (by simp [ColumnType.Stores])
  | .string s => decidable_of_iff ((Value.string s).type = type) (by simp [ColumnType.Stores])
  | .integer i => decidable_of_iff ((Value.integer i).type = type) (by simp [ColumnType.Stores])
  | .float x =>
    decidable_of_iff ((Value.float x).type = type ∧ x.isFinite) (by simp [ColumnType.Stores])

/-- The row with one field. -/
def Tuple.single (c : Column) (v : Value) (h : c.type.Stores v) : Tuple where
  fields := [⟨c, v⟩]
  distinct := by simp
  stored := by simpa [Field.Stored] using h

namespace Relation

def ofColumn (c : Column) (values : List Value) (h : ∀ v ∈ values, c.type.Stores v) : Relation where
  schema := .ofDistinct [c] (by simp)
  tuples := (values.attach.map fun v => .single c v.1 (h v.1 v.2)).toArray
  aligned := by
    intro t ht
    rw [List.mem_toArray, List.mem_map] at ht
    obtain ⟨v, -, rfl⟩ := ht
    rw [Schema.columns_ofDistinct]
    rfl

variable {c d : Column} {values others : List Value} {hc : ∀ v ∈ values, c.type.Stores v}
  {hd : ∀ v ∈ others, d.type.Stores v}

@[simp] theorem columns_ofColumn : (ofColumn c values hc).schema.columns = [c] :=
  Schema.columns_ofDistinct (by simp)

theorem indexOf?_ofColumn : (ofColumn c values hc).schema.indexOf? c.name = some 0 := by
  rw [Schema.indexOf?_eq_some_iff, Schema.names, columns_ofColumn]
  rfl

theorem join_ofColumn (apart : c.name ≠ d.name) :
    (ofColumn c values hc).schema.join (ofColumn d others hd).schema =
      .ok (.ofDistinct [c, d] (by simpa using apart)) := by
  rw [Schema.join, columns_ofColumn, columns_ofColumn]
  exact Schema.ofColumns_of_distinct _

theorem project_ofColumn (name : String) :
    (ofColumn c values hc).schema.project [⟨c.name, some name⟩] =
      .ok (.ofDistinct [c.renamed name] (by simp)) := by
  have found : (ofColumn c values hc).schema.column? c.name = some c := by
    rw [Schema.column?, indexOf?_ofColumn, columns_ofColumn]
    rfl
  have picked : (ofColumn c values hc).schema.pick ⟨c.name, some name⟩ = .ok (c.renamed name) := by
    simp only [Schema.pick, found]
    rfl
  unfold Schema.project
  rw [List.mapM_cons, picked]
  exact Schema.ofColumns_of_distinct _

end Relation
end PullAlgebra
