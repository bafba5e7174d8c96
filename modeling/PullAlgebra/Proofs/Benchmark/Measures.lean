import PullAlgebra.Benchmark
import PullAlgebra.Proofs.Pipeline.Replay
import PullAlgebra.Proofs.Source.CrossJoin
import PullAlgebra.Proofs.Source.EquiJoin
import PullAlgebra.Proofs.Source.Phases

/-!
# PullAlgebra.Proofs.Benchmark.Measures

What the benchmark counts for one join of two relations, whatever is in them. The run under a
timeline counts what the join gives, and the run after it, from the first tuple on, counts the same.

* `Row.counted`: a row of which the replay has the count of the forward run.
* `measure_of_emits`: a join that gives tuples only.
* `measure_cross`, `measure_theta`, `measure_hash`: the three methods.
-/

namespace PullAlgebra
namespace Benchmark

open Timeline

/-- The row of a join that has as many tuples when it is replayed as when it is run forward. -/
def Row.counted (name : String) (count : Nat) (replayed : Bool) : Row Unit :=
  ⟨name, ⟨count, ()⟩, if replayed then some ⟨count, ()⟩ else none⟩

section Halves

variable {t : Timeline Source Tuple} {items : List Tuple} {run : Drained (Timeline Source Tuple) Nat}

theorem size_log_of_ranOut (h : RanOut t items run) :
    run.after.log.size = t.log.size + items.length := by
  rw [← Array.length_toList, h.log, List.length_append, Array.length_toList]

theorem settle_of_ranOut (h : RanOut t items run) :
    settle run = ⟨.ok (t.log.size + items.length), run.after⟩ := by
  rw [settle, h.failure, size_log_of_ranOut h]

end Halves

theorem ranOut_countRest {t : Timeline Source Tuple} {items : List Tuple} (opened : t.phase.isOpen)
    (run : Emits t.inner (items.map .ok)) : RanOut t items (countRest t) :=
  ranOut_foldNext (fun _ => Source.next_next_of_none) _ _ opened run

section Runs

variable {join : Join} {r s : Relation} {o opened : Source} {items : List Tuple}

theorem forward_of_emits (started : o.start = ⟨.ok (), opened⟩)
    (run : Emits opened (items.map .ok)) :
    ∃ t, forward (.ofInner o) = ⟨.ok items.length, t⟩ ∧ t.log.size = items.length ∧
      t.phase = .running ∧ Emits t.inner [] := by
  have start : Iterator.start (Timeline.ofInner o : Timeline Source Tuple) =
      ⟨.ok (), ⟨opened, #[], none, .running⟩⟩ := start_of_ok started
  have whole := ranOut_countRest (t := ⟨opened, #[], none, .running⟩) rfl run
  refine ⟨_, ?_, (size_log_of_ranOut whole).trans (Nat.zero_add _), whole.phase, whole.ended⟩
  rw [forward, start]
  dsimp only
  rw [settle_of_ranOut whole]
  simp

theorem replay_of_ended {t : Timeline Source Tuple} (opened : t.phase.isOpen)
    (ended : Emits t.inner []) : (replay t).result = .ok t.log.size := by
  obtain ⟨cursor, back⟩ := t.rewind_eq
  have again : RanOut { t with cursor } [] (countRest { t with cursor }) :=
    ranOut_countRest opened ended
  rw [replay, back, settle_of_ranOut again]
  rfl

/-- A join that gives tuples only is counted whole, under a timeline or not. -/
theorem measure_of_emits (built : join.build r s = .ok o) (started : o.start = ⟨.ok (), opened⟩)
    (run : Emits opened (items.map .ok)) :
    measure untimed join r s = pure (.ok (.counted join.name items.length (isReplayed join))) := by
  unfold measure
  rw [built]
  dsimp only
  split
  · rename_i replayed
    obtain ⟨t, first, size, running, ended⟩ := forward_of_emits started run
    have second := replay_of_ended (by rw [running]; rfl) ended
    simp only [measureReplayed, untimed, first, pure_bind, second, size, replayed]
    rfl
  · rename_i counted
    have total := foldRun_of_emits (fun n _ => n + 1) 0 (s := o) started run
    have count : items.foldl (fun n _ => n + 1) 0 = items.length := by simp
    simp only [measureCounted, untimed, total, count, pure_bind, Bool.eq_false_iff.2 counted]
    rfl

end Runs

section Methods

variable {r s : Relation} {schema : Schema} (joined : r.schema.join s.schema = .ok schema)
include joined

theorem measure_cross :
    measure untimed .cross r s = pure (.ok (.counted "cross" (r.size * s.size) false)) := by
  have built := Join.build_cross_of_join joined
  have run := (CrossJoin.emits_numbered (j := ⟨r, s, schema, joined, .first, .running⟩) rfl rfl).inside
    (f := Source.cross) fun _ => rfl
  have there : ∀ row ∈ (List.range (r.size * s.size)).map fun n =>
      joinRows r s (n / s.size) (n % s.size), ∃ v, row = .ok v := by
    intro row hrow
    obtain ⟨n, hn, rfl⟩ := List.mem_map.1 hrow
    obtain ⟨outer, inner⟩ := PairCursor.lt_of_number (List.mem_range.1 hn)
    obtain ⟨_, _, v, -, -, -, -, combined⟩ := exists_joinRows joined outer inner
    exact ⟨v, combined⟩
  obtain ⟨items, whole⟩ := exists_map_ok there
  have size : items.length = r.size * s.size := by
    rw [← List.length_map (f := Except.ok), ← whole, List.length_map, List.length_range]
  dsimp only at run
  rw [whole] at run
  rw [measure_of_emits built rfl run, size]
  rfl

variable {keys : List (String × String)} {pairs : List (Nat × Nat)}
  (paired : List.Forall₂ (Paired r.schema s.schema) keys pairs)
include paired

theorem measure_theta :
    measure untimed (.theta (.keysEqual keys)) r s =
      pure (.ok (.counted "theta" (matchesByLeft r s keys).length true)) := by
  let θ : ThetaJoin := ⟨r, s, schema, joined, .positionsEqual r.schema.size pairs, .first, .unopened⟩
  have built : (Join.theta (.keysEqual keys)).build r s = .ok (.theta θ) :=
    Join.build_theta_of_bind joined (bind_keysEqual joined paired)
  have run : Emits (Iterator.start θ).after _ := emits_theta joined paired rfl rfl rfl
  exact measure_of_emits built rfl (run.inside fun _ => rfl)

theorem measure_hash (keyed : keys ≠ []) :
    measure untimed (.hash keys) r s =
      pure (.ok (.counted "hash" (matchesByLeft r s keys).length true)) := by
  obtain ⟨j, hj⟩ := exists_hashJoin keyed joined paired
  have built := Join.build_hash_of_ok hj
  obtain ⟨hr, hs, -, pairs', paired', hl, hk⟩ := paired_of_ofRelations hj
  obtain ⟨opened, started, run⟩ := exists_start_hash joined paired' hr hs hl hk
  have count : (if r.size < s.size then matchesByRight r s keys else matchesByLeft r s keys).length =
      (matchesByLeft r s keys).length := by
    split
    · exact (matchesByLeft_perm_matchesByRight r s keys).length_eq.symm
    · rfl
  rw [measure_of_emits built (congrArg (Reply.inside Source.hash) started)
    (run.inside (f := Source.hash) fun _ => rfl), count]
  rfl

end Methods

end Benchmark
end PullAlgebra
