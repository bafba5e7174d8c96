import Mathlib.Data.List.Nodup
import Mathlib.Data.List.Perm.Subperm
import PullAlgebra.Proofs.Schema.Position

/-!
# PullAlgebra.Proofs.Schema.SameColumns

Schemas with the same columns in whatever order. The check compares the numbers of columns and looks
the columns of one schema up in the other, but not the other way round. Names are distinct, so
columns that are all found are found at different places, and as there are as many places, none is
left over.

* `hasTyped_iff_mem`: what is found under a name and a type.
* `sameColumns_iff_perm`: the check succeeds for the permutations of the columns.
* `same_columns_up_to_order`: hence it is an equivalence.
-/

namespace PullAlgebra
namespace Schema

variable {s t : Schema}

theorem nodup_columns (s : Schema) : s.columns.Nodup := s.distinct.of_map

theorem hasTyped_iff_mem {c : Column} : s.hasTyped c.name c.type = true ↔ c ∈ s.columns := by
  rw [hasTyped, Option.any_eq_true]
  constructor
  · rintro ⟨d, found, typed⟩
    rw [column?_eq_find?] at found
    have name : d.name = c.name := by simpa using List.find?_some found
    have type : d.type = c.type := of_decide_eq_true typed
    have same : d = c := by
      cases d; cases c; cases name; cases type; rfl
    exact same ▸ List.mem_of_find?_eq_some found
  · intro known
    exact ⟨c, column?_of_mem known, decide_eq_true rfl⟩

theorem sameColumns_iff_subset :
    s.sameColumns t = true ↔ s.size = t.size ∧ s.columns ⊆ t.columns := by
  rw [sameColumns, Bool.and_eq_true, beq_iff_eq, List.all_eq_true]
  exact and_congr_right fun _ => forall₂_congr fun _ _ => hasTyped_iff_mem

theorem sameColumns_iff_perm : s.sameColumns t = true ↔ s.columns.Perm t.columns := by
  rw [sameColumns_iff_subset]
  constructor
  · rintro ⟨size, found⟩
    have places : s.columns.Subperm t.columns := List.subperm_of_subset s.nodup_columns found
    exact places.perm_of_length_le (Nat.le_of_eq size.symm)
  · intro same
    exact ⟨same.length_eq, same.subset⟩

/-- Of any two schemas, the first has the same columns as the second exactly if the columns of the
second are a permutation of those of the first. So the check does not depend on which of the two is
looked up in the other. -/
theorem same_columns_up_to_order :
    (∀ s t : Schema, s.sameColumns t = true ↔ t.columns.Perm s.columns) ∧
      Equivalence fun s t : Schema => s.sameColumns t = true := by
  refine ⟨fun s t => sameColumns_iff_perm.trans List.perm_comm, ?_, ?_, ?_⟩
  case refine_1 =>
    intro s
    exact sameColumns_iff_perm.2 (.refl _)
  case refine_2 =>
    intro s t same
    exact sameColumns_iff_perm.2 (sameColumns_iff_perm.1 same).symm
  case refine_3 =>
    intro r s t first second
    exact sameColumns_iff_perm.2 ((sameColumns_iff_perm.1 first).trans (sameColumns_iff_perm.1 second))

end Schema
end PullAlgebra
