import PullAlgebra.Proofs.Emission
import PullAlgebra.Proofs.Relation.Growth
import PullAlgebra.Source.Scan

/-!
# PullAlgebra.Proofs.Relation.Rebuilt

Rows that have the columns of a schema already are taken into a relation as they are, and come out
of a scan as they are.

* `exists_ofTuples`: the relation of such rows.
* `ofTuples_tuples`: in this way every relation is built from its own rows.
* `Scan.collect_ofRelation`: a scan collects the rows of its relation.
-/

namespace PullAlgebra

namespace Relation

theorem exists_ofTuples {schema : Schema} {tuples : List Tuple}
    (h : ∀ t ∈ tuples, t.columns = schema.columns) :
    ∃ r, ofTuples schema tuples = .ok r ∧ r.schema = schema ∧ r.tuples = tuples.toArray := by
  have kept : (tuples.mapM fun t => t.alignTo schema) = .ok tuples := by
    refine mapM_eq_ok_of_forall₂ (List.forall₂_same.2 ?_)
    intro t ht
    exact Tuple.alignTo_of_columns (h t ht)
  rcases ofTuples_cases schema tuples with ⟨_, r, aligned, built, same, rows⟩ | ⟨_, refused, -⟩
  · cases kept.symm.trans aligned
    exact ⟨r, built, same, rows⟩
  · cases kept.symm.trans refused

theorem ofTuples_tuples (r : Relation) : ofTuples r.schema r.tuples.toList = .ok r := by
  have aligned : ∀ t ∈ r.tuples.toList, t.columns = r.schema.columns := by
    intro t ht
    exact r.aligned t (Array.mem_toList_iff.1 ht)
  obtain ⟨r', built, schema, tuples⟩ := exists_ofTuples aligned
  rw [built, ext_tuples schema tuples]

end Relation

namespace Scan

theorem emits_rows (r : Relation) (row : Nat) :
    Emits (⟨r, row, .running⟩ : Scan) ((r.tuples.toList.drop row).map .ok) := by
  have next : Iterator.next (⟨r, row, .running⟩ : Scan) = produce ⟨r, row, .running⟩ := rfl
  unfold produce at next
  cases h : r.get? row with
  | none =>
    rw [h] at next
    have past : r.tuples.toList.drop row = [] := by
      rw [List.drop_eq_nil_iff, Array.length_toList]
      exact Array.getElem?_eq_none_iff.1 h
    rw [past]
    exact .done next
  | some t =>
    rw [h] at next
    obtain ⟨lt, rfl⟩ := Array.getElem?_eq_some_iff.1 h
    rw [List.drop_eq_getElem_cons (by simpa using lt)]
    exact .item next (emits_rows r (row + 1))
termination_by r.size - row
decreasing_by exact Nat.sub_succ_lt_self _ _ lt

theorem collect_ofRelation (r : Relation) : (collect (ofRelation r)).result = .ok r.tuples :=
  collect_of_emits (s := ofRelation r) rfl (emits_rows r 0)

end Scan
end PullAlgebra
