import PullAlgebra.Proofs.Emission
import PullAlgebra.Proofs.Pipeline.Asking

/-!
# PullAlgebra.Proofs.Pipeline.Replay

Timelines run to the end, from wherever their cursors stand: first through the rest of the log and
then through the inner iterator. If the inner iterator has nothing more from its end on, a timeline
that was run to the end can be rewound and run again, which gives the same log once more.

* `next_cases_of_emits`: one step over an iterator that gives items only.
* `RanOut`: what a run to the end leaves behind; `ranOut_foldNext` that it does.
* `rewind_eq`: all that rewinding changes is the cursor.
-/

namespace PullAlgebra
namespace Timeline

variable {σ α β : Type}

/-- A step of a timeline whose inner iterator gives items only: along the log, to a new item, or at
the end. -/
theorem next_cases_of_emits [Iterator σ α] {t : Timeline σ α} {items : List α}
    (opened : t.phase.isOpen) (run : Emits t.inner (items.map .ok)) :
    (∃ cursor a, Iterator.next t = ⟨.ok (some a), { t with cursor }⟩) ∨
      (∃ a rest inner, items = a :: rest ∧ Emits inner (rest.map .ok) ∧
        Iterator.next t = ⟨.ok (some a), ⟨inner, t.log.push a, some t.log.size, t.phase⟩⟩) ∨
      ∃ inner, items = [] ∧ Iterator.next t.inner = ⟨.ok none, inner⟩ ∧
        Iterator.next t = ⟨.ok none, { t with inner }⟩ := by
  cases asks : t.asks with
  | true =>
    rw [next_of_asks asks]
    cases items with
    | nil =>
      cases run with
      | done below => exact .inr (.inr ⟨_, rfl, below, by rw [below]; rfl⟩)
    | cons a rest =>
      cases run with
      | item below further => exact .inr (.inl ⟨a, rest, _, rfl, further, by rw [below]; rfl⟩)
  | false =>
    obtain ⟨a, row⟩ := exists_row_of_not_asks asks opened
    obtain ⟨_, producing⟩ := Phase.producing_of_isOpen opened "Timeline"
    exact .inl ⟨some t.ahead, a, next_of_log producing row⟩

/-- The run has not failed; the items came into the log and the inner iterator is at its end. -/
structure RanOut [Iterator σ α] (t : Timeline σ α) (items : List α)
    (run : Drained (Timeline σ α) β) : Prop where
  failure : run.failure = none
  log : run.after.log.toList = t.log.toList ++ items
  phase : run.after.phase = t.phase
  ended : Emits run.after.inner []

theorem ranOut_foldNext [FiniteIterator σ α]
    (settled : ∀ s : σ, (Iterator.next s).result = .ok none →
      Iterator.next (Iterator.next s).after = ⟨.ok none, (Iterator.next s).after⟩)
    (f : β → α → β) (total : β) {t : Timeline σ α} {items : List α} (opened : t.phase.isOpen)
    (run : Emits t.inner (items.map .ok)) : RanOut t items (foldNext f total t) := by
  fun_induction foldNext f total t generalizing items with
  | case1 total t a after step _ ih =>
    rcases next_cases_of_emits opened run with
      ⟨_, _, same⟩ | ⟨_, rest, _, rfl, below, same⟩ | ⟨_, -, -, same⟩
    · cases same.symm.trans step
      obtain ⟨failure, log, phase, ended⟩ := ih opened run
      exact ⟨failure, log, phase, ended⟩
    · cases same.symm.trans step
      obtain ⟨failure, log, phase, ended⟩ := ih opened below
      refine ⟨failure, ?_, phase, ended⟩
      rw [log, Array.toList_push, List.append_assoc]
      rfl
    · cases same.symm.trans step
  | case2 total t after step =>
    rcases next_cases_of_emits opened run with
      ⟨_, _, same⟩ | ⟨_, _, _, -, -, same⟩ | ⟨inner, rfl, below, same⟩
    · cases same.symm.trans step
    · cases same.symm.trans step
    · cases same.symm.trans step
      have again := settled t.inner (by rw [below])
      rw [below] at again
      exact ⟨rfl, (List.append_nil _).symm, rfl, .done again⟩
  | case3 total t e after step =>
    rcases next_cases_of_emits opened run with
      ⟨_, _, same⟩ | ⟨_, _, _, -, -, same⟩ | ⟨_, -, -, same⟩ <;> cases same.symm.trans step

theorem rewindFrom_eq (items : Array α) (t : Timeline σ α) :
    ∃ cursor, (rewindFrom items t).after = { t with cursor } := by
  fun_induction rewindFrom items t with
  | case1 items t a after step _ ih =>
    obtain ⟨cursor, whole⟩ := ih
    rcases t.previous_cases with ⟨p, b, -, back⟩ | ⟨e, stuck⟩
    · cases back.symm.trans step
      exact ⟨cursor, whole⟩
    · cases stuck.symm.trans step
  | case2 items t e after step =>
    rcases t.previous_cases with ⟨p, b, -, back⟩ | ⟨e, stuck⟩
    · cases back.symm.trans step
    · cases stuck.symm.trans step
      exact ⟨t.cursor, rfl⟩

/-- Rewinding moves the cursor and changes nothing else. -/
theorem rewind_eq (t : Timeline σ α) : ∃ cursor, t.rewind.after = { t with cursor } :=
  rewindFrom_eq #[] t

end Timeline
end PullAlgebra
