import PullAlgebra.Proofs.Source.RowPairs
import PullAlgebra.Source

/-!
# PullAlgebra.Proofs.Source.Reset

What a source keeps from call to call. Each has a fixed part, its relations and what was resolved
when it was set up, and a part that belongs to a run. `Source.reset` is the source with the fixed
part alone, as it was before its first call.

* `reset_start`, `reset_next`, `reset_close`: no call changes the fixed part.
* `start_eq_or_fails`: only the fixed part counts for `start`.
* `columns_of_next`: all tuples have the columns of the schema.
-/

namespace PullAlgebra

namespace Phase

variable {σ α : Type} {phase : Phase} {operator : String} {s : σ}
  {produce : Unit → Reply σ (Option α)}

/-- What an operator's own work leaves as it is, the gate leaves as it is. -/
theorem apply_gate {τ : Type} {f : σ → τ} (h : f (produce ()).after = f s) :
    f (phase.gate operator s produce).after = f s := by
  cases phase with
  | running => exact h
  | _ => rfl

theorem produced_of_gate {a : α} (h : (phase.gate operator s produce).result = .ok (some a)) :
    (produce ()).result = .ok (some a) := by
  cases phase with
  | running => exact h
  | _ => cases h

end Phase

namespace Scan

def reset (s : Scan) : Scan := ofRelation s.relation

theorem reset_produce (s : Scan) : s.produce.after.reset = s.reset := by
  unfold produce
  split <;> rfl

theorem columns_of_produce {s : Scan} {t : Tuple} (h : s.produce.result = .ok (some t)) :
    t.columns = s.relation.schema.columns := by
  unfold produce at h
  split at h
  · rename_i u hu
    cases h
    exact s.relation.aligned t (Array.mem_of_getElem? hu)
  · cases h

theorem columns_of_next {s : Scan} {t : Tuple} (h : (Iterator.next s).result = .ok (some t)) :
    t.columns = s.relation.schema.columns := columns_of_produce (Phase.produced_of_gate h)

end Scan

namespace CrossJoin

def reset (j : CrossJoin) : CrossJoin := { j with cursor := .first, phase := .unopened }

theorem reset_produce (j : CrossJoin) : j.produce.after.reset = j.reset := by
  unfold produce
  split <;> rfl

theorem columns_of_produce {j : CrossJoin} {t : Tuple} (h : j.produce.result = .ok (some t)) :
    t.columns = j.schema.columns := by
  unfold produce at h
  split at h
  · cases h
  · obtain ⟨u, row, e⟩ := map_eq_ok h
    cases e
    exact columns_of_joinRows j.joined row

theorem columns_of_next {j : CrossJoin} {t : Tuple} (h : (Iterator.next j).result = .ok (some t)) :
    t.columns = j.schema.columns := columns_of_produce (Phase.produced_of_gate h)

end CrossJoin

namespace ThetaJoin

def reset (j : ThetaJoin) : ThetaJoin := { j with cursor := .first, phase := .unopened }

theorem reset_produce (j : ThetaJoin) : j.produce.after.reset = j.reset := by
  unfold produce
  split <;> rfl

theorem joinRows_of_seek {r s : Relation} {predicate : Expression} {cursor : PairCursor} {t : Tuple}
    (h : (seek r s predicate cursor).1 = .ok (some t)) :
    ∃ a b, joinRows r s a b = .ok t := by
  fun_induction seek r s predicate cursor with
  | case1 => cases h
  | case2 => cases h
  | case3 => cases h
  | case4 cursor a b _ _ _ u row _ => cases h; exact ⟨a, b, row⟩
  | case5 _ _ _ _ _ _ _ _ _ ih => exact ih h

theorem columns_of_produce {j : ThetaJoin} {t : Tuple} (h : j.produce.result = .ok (some t)) :
    t.columns = j.schema.columns := by
  have found : (seek j.r j.s j.predicate j.cursor).1 = .ok (some t) := by
    unfold produce at h
    split at h
    · cases h
    · rename_i hs
      rw [hs]
      exact h
  obtain ⟨a, b, row⟩ := joinRows_of_seek found
  exact columns_of_joinRows j.joined row

theorem columns_of_next {j : ThetaJoin} {t : Tuple} (h : (Iterator.next j).result = .ok (some t)) :
    t.columns = j.schema.columns := columns_of_produce (Phase.produced_of_gate h)

end ThetaJoin

namespace HashJoin

def reset (j : HashJoin) : HashJoin :=
  { j with table := .empty, row := 0, lookUp := none, phase := .unopened }

theorem reset_produce (j : HashJoin) : j.produce.after.reset = j.reset := by
  unfold produce
  split <;> rfl

theorem columns_of_combine {j : HashJoin} {a b : Nat} {t : Tuple} (h : j.combine a b = .ok t) :
    t.columns = j.schema.columns := by
  unfold combine at h
  split at h
  · exact columns_of_joinRows j.joined h
  · exact columns_of_joinRows j.joined h

theorem columns_of_seek {j : HashJoin} {row : Nat} {lookUp : Option LookUp} {t : Tuple}
    (h : (j.seek row lookUp).1 = .ok (some t)) : t.columns = j.schema.columns := by
  fun_induction seek j row lookUp with
  | case1 => cases h
  | case2 =>
    obtain ⟨u, row, e⟩ := map_eq_ok h
    cases e
    exact columns_of_combine row
  | case3 _ _ _ _ _ ih => exact ih h
  | case4 => cases h
  | case5 => cases h
  | case6 _ _ _ _ _ _ ih => exact ih h

theorem columns_of_produce {j : HashJoin} {t : Tuple} (h : j.produce.result = .ok (some t)) :
    t.columns = j.schema.columns := by
  have found : (j.seek j.row j.lookUp).1 = .ok (some t) := by
    unfold produce at h
    split at h
    · cases h
    · rename_i hs
      rw [hs]
      exact h
  exact columns_of_seek found

theorem start_of_ok {j : HashJoin} {table : HashTable}
    (h : HashTable.build j.grouped.1 j.grouped.2 = .ok table) :
    j.start = ⟨.ok (), { j with table, row := 0, lookUp := none, phase := .running }⟩ := by
  simp only [start, h]

theorem start_of_error {j : HashJoin} {e : QueryError}
    (h : HashTable.build j.grouped.1 j.grouped.2 = .error e) : j.start = ⟨.error e, j⟩ := by
  simp only [start, h]

theorem reset_start (j : HashJoin) : j.start.after.reset = j.reset := by
  cases h : HashTable.build j.grouped.1 j.grouped.2 with
  | ok table => rw [start_of_ok h]; rfl
  | error e => rw [start_of_error h]

theorem start_eq_or_fails (j : HashJoin) :
    j.start = j.reset.start ∨ ∃ e, j.start.result = .error e ∧ j.reset.start.result = .error e := by
  cases h : HashTable.build j.grouped.1 j.grouped.2 with
  | ok table => exact .inl ((start_of_ok h).trans (start_of_ok (j := j.reset) h).symm)
  | error e =>
    refine .inr ⟨e, ?_, ?_⟩
    · rw [start_of_error h]
    · rw [start_of_error (j := j.reset) h]

theorem columns_of_next {j : HashJoin} {t : Tuple} (h : (Iterator.next j).result = .ok (some t)) :
    t.columns = j.schema.columns := columns_of_produce (Phase.produced_of_gate h)

end HashJoin

namespace Source

/-- The source as it was before its first call. -/
def reset : Source → Source
  | .scan s => .scan s.reset
  | .cross j => .cross j.reset
  | .theta j => .theta j.reset
  | .hash j => .hash j.reset

theorem schema_reset (o : Source) : o.reset.schema = o.schema := by
  cases o <;> rfl

theorem reset_start (o : Source) : o.start.after.reset = o.reset := by
  cases o with
  | hash j => exact congrArg hash j.reset_start
  | _ => rfl

theorem reset_next (o : Source) : o.next.after.reset = o.reset := by
  cases o with
  | scan s => exact congrArg scan (Phase.apply_gate s.reset_produce)
  | cross j => exact congrArg cross (Phase.apply_gate j.reset_produce)
  | theta j => exact congrArg theta (Phase.apply_gate j.reset_produce)
  | hash j => exact congrArg hash (Phase.apply_gate j.reset_produce)

theorem reset_close (o : Source) : o.close.reset = o.reset := by
  cases o <;> rfl

theorem columns_of_next {o : Source} {t : Tuple} (h : o.next.result = .ok (some t)) :
    t.columns = o.schema.columns := by
  cases o with
  | scan s => exact Scan.columns_of_next (s := s) h
  | cross j => exact CrossJoin.columns_of_next (j := j) h
  | theta j => exact ThetaJoin.columns_of_next (j := j) h
  | hash j => exact HashJoin.columns_of_next (j := j) h

/-- From whatever state a source is started, it comes into the state that the reset one comes into,
unless both fail. -/
theorem start_eq_or_fails (o : Source) :
    o.start = o.reset.start ∨ ∃ e, o.start.result = .error e ∧ o.reset.start.result = .error e := by
  cases o with
  | hash j =>
    rcases j.start_eq_or_fails with same | fails
    · exact .inl (congrArg (Reply.inside hash) same)
    · exact .inr fails
  | _ => exact .inl rfl

end Source
end PullAlgebra
