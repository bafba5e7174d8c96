import PullAlgebra.Proofs.Emission
import PullAlgebra.Proofs.Source.RowPairs
import PullAlgebra.Source.CrossJoin

/-!
# PullAlgebra.Proofs.Source.CrossJoin

A cross join as a product. It yields the combined tuple of every pair of rows, so that the number of
an item tells both rows: the quotient by the size of the second relation, and the remainder.

* `emits_rest`, `emits_numbered`: the rest of a run, and a whole run.
* `emits_combinations`: a whole run as two nested loops.
-/

namespace PullAlgebra

namespace CrossJoin

theorem next_running {j : CrossJoin} (h : j.phase = .running) : Iterator.next j = j.produce := by
  change j.phase.gate "CrossJoin" j _ = _
  rw [h]
  rfl

theorem emits_rest {j : CrossJoin} (running : j.phase = .running) :
    Emits j ((j.cursor.rest j.r.size j.s.size).map fun pair => joinRows j.r j.s pair.1 pair.2) := by
  have hn := next_running running
  unfold produce at hn
  cases h : j.cursor.advance j.r.size j.s.size with
  | none =>
    rw [h] at hn
    rw [PairCursor.rest_of_none h]
    exact .done hn
  | some step =>
    obtain ⟨⟨a, b⟩, after⟩ := step
    have behind := PairCursor.bound_advance h
    have rest := emits_rest (j := { j with cursor := after }) running
    rw [h] at hn
    dsimp only at hn
    rw [PairCursor.rest_of_some h, List.map_cons]
    cases row : joinRows j.r j.s a b with
    | ok t =>
      rw [row] at hn
      exact .item hn rest
    | error e =>
      rw [row] at hn
      exact .fail hn rest
termination_by j.cursor.bound j.r.size j.s.size

/-- A whole run: the pair of rows that makes an item is given by its number. -/
theorem emits_numbered {j : CrossJoin} (running : j.phase = .running) (first : j.cursor = .first) :
    Emits j ((List.range (j.r.size * j.s.size)).map fun n =>
      joinRows j.r j.s (n / j.s.size) (n % j.s.size)) := by
  have whole := emits_rest running
  rw [first, PairCursor.rest_first, List.map_map] at whole
  exact whole

/-- A whole run: the combinations of all rows, by rows of the first relation. -/
theorem emits_combinations {j : CrossJoin} (running : j.phase = .running)
    (first : j.cursor = .first) : Emits j ((combinations j.r j.s).map liftTable) := by
  have loops := PairCursor.filterMap_rest_first j.r.tuples.toList j.s.tuples.toList
    (f := fun t u => some (liftTable (t.join u)))
    (g := fun pair => some (joinRows j.r j.s pair.1 pair.2))
    fun i k t u ht hu => congrArg some (joinRows_eq ht hu)
  simp only [List.filterMap_eq_map'] at loops
  have whole := emits_rest running
  rw [first] at whole
  have same : (combinations j.r j.s).map liftTable =
      (PairCursor.first.rest j.r.size j.s.size).map fun pair => joinRows j.r j.s pair.1 pair.2 := by
    simp only [combinations, List.map_flatMap, List.map_map]
    exact loops.symm
  rwa [same]

end CrossJoin
end PullAlgebra
