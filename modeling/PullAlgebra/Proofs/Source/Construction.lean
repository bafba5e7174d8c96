import PullAlgebra.Proofs.Result
import PullAlgebra.Source

/-!
# PullAlgebra.Proofs.Source.Construction

Which joins of two relations are built, and the state in which they are: no run has begun.

* `ofRelations_of_join`, `ofRelations_of_bind`, `ofRelations_of_keys`: what is enough for a cross
  join, a theta join and a hash join to be built.
* `exists_of_ofRelations`: what is known of one that was built.
* `build_cross_of_join`, `build_cross_of_error`, `build_theta_of_bind`, `build_hash_of_ok`: the same
  for the sources.
-/

namespace PullAlgebra

variable {r s : Relation} {schema : Schema}

namespace CrossJoin

theorem ofRelations_of_join (joined : r.schema.join s.schema = .ok schema) :
    ofRelations r s = .ok ⟨r, s, schema, joined, .first, .unopened⟩ := by
  unfold ofRelations
  split
  · rename_i h
    rw [joined] at h
    cases h
    rfl
  · rename_i h
    rw [joined] at h
    cases h

theorem ofRelations_of_error {e : TableError} (refused : r.schema.join s.schema = .error e) :
    ofRelations r s = .error e := by
  unfold ofRelations
  split
  · rename_i h
    rw [refused] at h
    cases h
  · rename_i h
    rw [refused] at h
    cases h
    rfl

theorem exists_of_ofRelations {j : CrossJoin} (h : ofRelations r s = .ok j) :
    ∃ schema joined, j = ⟨r, s, schema, joined, .first, .unopened⟩ := by
  unfold ofRelations at h
  split at h
  · cases h
    exact ⟨_, _, rfl⟩
  · cases h

end CrossJoin

namespace ThetaJoin

variable {p q : Expression}

theorem ofRelations_of_bind (joined : r.schema.join s.schema = .ok schema)
    (bound : p.bind schema = .ok q) :
    ofRelations r s p = .ok ⟨r, s, schema, joined, q, .first, .unopened⟩ := by
  unfold ofRelations
  split
  · rename_i h
    rw [joined] at h
    cases h
  · rename_i h
    rw [joined] at h
    cases h
    rw [bound]

theorem exists_of_ofRelations {j : ThetaJoin} (h : ofRelations r s p = .ok j) :
    ∃ schema joined q, p.bind schema = .ok q ∧ j = ⟨r, s, schema, joined, q, .first, .unopened⟩ := by
  unfold ofRelations at h
  split at h
  · cases h
  · split at h
    · cases h
    · rename_i bound
      cases h
      exact ⟨_, _, _, bound, rfl⟩

end ThetaJoin

namespace HashJoin

variable {keys : List (String × String)} {pairs : List (Nat × Nat)}

theorem ofRelations_of_keys (keyed : keys ≠ []) (joined : r.schema.join s.schema = .ok schema)
    (resolved : keys.mapM (fun (left, right) => keyPair r.schema s.schema left right) = .ok pairs) :
    ofRelations r s keys = .ok ⟨r, s, schema, joined, pairs.map Prod.fst, pairs.map Prod.snd,
      .empty, 0, none, .unopened⟩ := by
  unfold ofRelations
  rw [if_neg keyed]
  split
  · rename_i h
    rw [joined] at h
    cases h
  · rename_i h
    rw [joined] at h
    cases h
    rw [resolved]

theorem exists_of_ofRelations {j : HashJoin} (h : ofRelations r s keys = .ok j) :
    ∃ schema joined pairs,
      keys.mapM (fun (left, right) => keyPair r.schema s.schema left right) = .ok pairs ∧
      j = ⟨r, s, schema, joined, pairs.map Prod.fst, pairs.map Prod.snd, .empty, 0, none,
        .unopened⟩ := by
  unfold ofRelations at h
  split at h
  · cases h
  · split at h
    · cases h
    · split at h
      · cases h
      · rename_i resolved
        cases h
        exact ⟨_, _, _, resolved, rfl⟩

theorem ne_nil_of_ofRelations {j : HashJoin} (h : ofRelations r s keys = .ok j) : keys ≠ [] := by
  rintro rfl
  cases h

end HashJoin

namespace Join

theorem build_cross_of_join (joined : r.schema.join s.schema = .ok schema) :
    cross.build r s = .ok (.cross ⟨r, s, schema, joined, .first, .unopened⟩) := by
  rw [build, CrossJoin.ofRelations_of_join joined]
  rfl

theorem build_cross_of_error {e : TableError} (refused : r.schema.join s.schema = .error e) :
    cross.build r s = .error (.table e) := by
  rw [build, CrossJoin.ofRelations_of_error refused]
  rfl

theorem build_theta_of_bind {p q : Expression} (joined : r.schema.join s.schema = .ok schema)
    (bound : p.bind schema = .ok q) :
    (theta p).build r s = .ok (.theta ⟨r, s, schema, joined, q, .first, .unopened⟩) := by
  rw [build, ThetaJoin.ofRelations_of_bind joined bound]
  rfl

theorem build_hash_of_ok {keys : List (String × String)} {j : HashJoin}
    (h : HashJoin.ofRelations r s keys = .ok j) : (hash keys).build r s = .ok (.hash j) := by
  rw [build, h]
  rfl

end Join
end PullAlgebra
