import Mathlib.Data.List.Find
import Mathlib.Data.List.Nodup
import Mathlib.Data.List.Perm.Subperm
import PullAlgebra.Tuple

/-!
# PullAlgebra.Proofs.Tuple.Alignment

Fields in the order of a schema. Of the tuples with the same fields, in whatever order, at most one
has the columns of the schema in its order, and to align any of them is to find that one.

* `arranged_columns`, `arranged_of_perm`: the fields are found column by column, wherever they stand.
* `alignTo_eq_ok_iff`: what a tuple is aligned to.
* `exists_alignTo_of_perm`, `alignTo_of_refused`: when there is such a tuple, and what is reported
  where there is none.
-/

namespace PullAlgebra
namespace Tuple

variable {t u : Tuple} {s : Schema}

theorem nodup_columns (t : Tuple) : t.columns.Nodup := t.distinct_columns.of_map

theorem eq_of_column_eq {f g : Field} (hf : f ∈ t.fields) (hg : g ∈ t.fields)
    (same : f.column = g.column) : f = g :=
  List.inj_on_of_nodup_map t.nodup_columns hf hg same

theorem arranged_columns (t : Tuple) : t.arranged t.columns = t.fields := by
  have found : ∀ f ∈ t.fields, (t.fields.find? fun g => g.column == f.column) = some f := by
    intro f hf
    cases h : t.fields.find? fun g => g.column == f.column with
    | none => simpa using List.find?_eq_none.1 h f hf
    | some g =>
      have same : g.column = f.column := by simpa using List.find?_some h
      rw [eq_of_column_eq (List.mem_of_find?_eq_some h) hf same]
  rw [arranged, columns, List.filterMap_map]
  exact (List.filterMap_congr found).trans List.filterMap_some

theorem arranged_of_perm (same : u.fields.Perm t.fields) (columns : List Column) :
    u.arranged columns = t.arranged columns := by
  refine List.filterMap_congr fun c _ => List.find?_eq_find?_of_perm same ?_
  rintro f ⟨hf, isC⟩ g ⟨hg, isC'⟩
  exact eq_of_column_eq hf hg ((eq_of_beq isC).trans (eq_of_beq isC').symm)

theorem perm_of_arranged (size : t.size = s.size)
    (whole : (t.arranged s.columns).map Field.column = s.columns) :
    (t.arranged s.columns).Perm t.fields := by
  have distinct : (t.arranged s.columns).Nodup := by
    refine List.Nodup.of_map Field.column ?_
    rw [whole]
    exact s.distinct.of_map
  have length : (t.arranged s.columns).length = s.columns.length := by
    rw [← List.length_map (f := Field.column), whole]
  refine (List.subperm_of_subset distinct fun f => mem_of_mem_arranged).perm_of_length_le ?_
  rw [length]
  exact size.le

/-- A tuple is aligned to the one that has the same fields, in the order of the schema's columns. -/
theorem alignTo_eq_ok_iff :
    t.alignTo s = .ok u ↔ u.columns = s.columns ∧ u.fields.Perm t.fields := by
  constructor
  · intro aligned
    refine ⟨columns_of_alignTo aligned, ?_⟩
    unfold alignTo at aligned
    split at aligned
    · cases aligned
      rfl
    · split at aligned
      · rename_i whole
        cases aligned
        exact perm_of_arranged whole.1 whole.2
      · cases aligned
  · rintro ⟨columns, same⟩
    have fields : u.fields = t.arranged s.columns := by
      rw [← arranged_of_perm same, ← columns, arranged_columns]
    unfold alignTo
    split
    · rename_i already
      have : t = u := ext_fields (by rw [fields, ← already, arranged_columns])
      rw [this]
    · have whole : t.size = s.size ∧ (t.arranged s.columns).map Field.column = s.columns := by
        rw [← fields]
        refine ⟨same.length_eq.symm.trans ?_, columns⟩
        rw [Schema.size, ← columns, Tuple.columns, List.length_map]
      rw [dif_pos whole]
      exact congrArg Except.ok (ext_fields fields.symm)

theorem alignTo_of_columns (h : t.columns = s.columns) : t.alignTo s = .ok t := if_pos h

/-- The columns of a schema in another order are brought into its order. -/
theorem exists_alignTo_of_perm (same : t.columns.Perm s.columns) : ∃ u, t.alignTo s = .ok u := by
  have own : List.Forall₂ (fun c f => f.column = c) t.columns t.fields := by
    simp [columns, List.forall₂_map_left_iff, List.forall₂_same]
  obtain ⟨fields, ordered, perm⟩ := List.perm_comp_forall₂ same.symm own
  have columns : fields.map Field.column = s.columns := by
    rw [← List.forall₂_eq_eq_eq, List.forall₂_map_left_iff]
    exact ordered.flip
  let u : Tuple := ⟨fields, (perm.map Field.name).nodup_iff.2 t.distinct, fun f hf =>
    t.stored f (perm.mem_iff.1 hf)⟩
  exact ⟨u, alignTo_eq_ok_iff.2 ⟨columns, perm⟩⟩

theorem alignTo_of_refused (refused : ∀ u, t.alignTo s ≠ .ok u) :
    t.alignTo s = .error (.columnsDiffer t.schema.names s.names) := by
  unfold alignTo at refused ⊢
  split at refused
  · exact absurd rfl (refused _)
  · split at refused
    · exact absurd rfl (refused _)
    · rw [if_neg ‹_›, dif_neg ‹_›]

end Tuple
end PullAlgebra
