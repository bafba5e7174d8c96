import PullAlgebra.Proofs.Pipeline.Nesting
import PullAlgebra.Proofs.Relation.Rebuilt
import PullAlgebra.Proofs.Source.CrossJoin
import PullAlgebra.Proofs.Source.ThetaJoin

/-!
# PullAlgebra.Proofs.Pipeline.Runs

Runs through layers. What a run gives at the root of a pipeline is read off what it gives at the
source: a projection makes one outcome of each outcome below, and a timeline that stands at the end of
its log passes every outcome on.

* `Runs`: a start that succeeds, and what `next` answers with after it.
* `Scan.runs_rows`, `CrossJoin.runs_combinations`, `ThetaJoin.runs_outcomes`: sources.
* `Projection.runs`, `Timeline.runs`: a layer over a run; `Pipeline.runs_source`,
  `Pipeline.runs_projection`, `Pipeline.runs_timeline` the same for pipelines.
* `Runs.collect_eq`: what is collected.
-/

namespace PullAlgebra

variable {σ : Type}

/-- The iterator can be started, and the calls of `next` then answer with the list and after it with
nothing. -/
def Runs {α : Type} [Iterator σ α] (s : σ) (outcomes : List (Except QueryError α)) : Prop :=
  ∃ opened, Iterator.start s = ⟨.ok (), opened⟩ ∧ Emits opened outcomes

namespace Runs

variable {α τ : Type}

theorem inside [Iterator σ α] [Iterator τ α] {f : σ → τ} {s : σ}
    {outcomes : List (Except QueryError α)} (h : Runs s outcomes)
    (starts : ∀ s, Iterator.start (f s) = (Iterator.start s).inside f)
    (passes : ∀ s, Iterator.next (f s) = (Iterator.next s).inside f) : Runs (f s) outcomes := by
  obtain ⟨opened, started, run⟩ := h
  exact ⟨f opened, (starts s).trans (congrArg (Reply.inside f) started), run.inside passes⟩

theorem collect_eq [FiniteIterator σ α] {s : σ} {items : List α} (h : Runs s (items.map .ok)) :
    (collect s).result = .ok items.toArray := by
  obtain ⟨opened, started, run⟩ := h
  exact collect_of_emits started run

end Runs

/-! ## Sources -/

theorem Scan.runs_rows (r : Relation) : Runs (ofRelation r) (r.tuples.toList.map .ok) :=
  ⟨_, rfl, emits_rows r 0⟩

section Joins

variable {r s : Relation} {schema : Schema} (joined : r.schema.join s.schema = .ok schema)

theorem CrossJoin.runs_combinations :
    Runs (⟨r, s, schema, joined, .first, .unopened⟩ : CrossJoin)
      ((combinations r s).map liftTable) :=
  ⟨_, rfl, emits_combinations rfl rfl⟩

theorem ThetaJoin.runs_outcomes (predicate : Expression) :
    Runs (⟨r, s, schema, joined, predicate, .first, .unopened⟩ : ThetaJoin)
      (outcomesFrom r s predicate .first) :=
  ⟨_, rfl, emits_outcomesFrom rfl⟩

end Joins

/-! ## Layers -/

namespace Projection

variable [Iterator σ Tuple]

/-- What a projection makes of an outcome of the inner iterator. -/
def outcome (outputs : List OutputColumn) (x : Except QueryError Tuple) : Except QueryError Tuple :=
  x >>= fun t => liftTable (t.project outputs)

omit [Iterator σ Tuple] in
theorem map_outcome_lifted (outputs : List OutputColumn) (xs : List (Except TableError Tuple)) :
    (xs.map liftTable).map (outcome outputs) =
      (xs.map fun x => x >>= fun t => t.project outputs).map liftTable := by
  rw [List.map_map, List.map_map]
  refine List.map_congr_left fun x _ => ?_
  cases x <;> rfl

theorem emits_outcomes {p : Projection σ} {outcomes : List (Except QueryError Tuple)}
    (running : p.phase = .running) (h : Emits p.inner outcomes) :
    Emits p (outcomes.map (outcome p.outputs)) := by
  obtain ⟨inner, outputs, schema, phase⟩ := p
  dsimp only at running h
  subst running
  have asked (inner : σ) := next_of_running (p := ⟨inner, outputs, schema, .running⟩) rfl
  induction h with
  | @done s after hn =>
    have answer := asked s
    rw [hn] at answer
    exact .done answer
  | @item s after t rest hn _ ih =>
    have answer := asked s
    rw [hn] at answer
    change _ = Reply.mk ((liftTable (t.project outputs)).map some) _ at answer
    change Emits _ (liftTable (t.project outputs) :: _)
    cases projected : liftTable (t.project outputs) with
    | ok u =>
      rw [projected] at answer
      exact .item answer ih
    | error e =>
      rw [projected] at answer
      exact .fail answer ih
  | @fail s after e rest hn _ ih =>
    have answer := asked s
    rw [hn] at answer
    exact .fail answer ih

theorem runs {p : Projection σ} {outcomes : List (Except QueryError Tuple)}
    (h : Runs p.inner outcomes) : Runs p (outcomes.map (outcome p.outputs)) := by
  obtain ⟨opened, started, run⟩ := h
  exact ⟨_, start_of_ok started,
    emits_outcomes (p := ⟨opened, p.outputs, p.schema, .running⟩) rfl run⟩

end Projection

namespace Timeline

variable {α : Type} [Iterator σ α]

theorem next_at_end {t : Timeline σ α} (running : t.phase = .running)
    (atEnd : t.ahead = t.log.size) : Iterator.next t = t.yielded (Iterator.next t.inner) := by
  have opened : t.phase.producing "Timeline" = .ok true := by
    rw [running]
    rfl
  exact next_of_end opened (Array.getElem?_eq_none (Nat.le_of_eq atEnd.symm))

/-- With nothing to replay, a timeline gives what the inner iterator gives. -/
theorem emits_at_end {t : Timeline σ α} {outcomes : List (Except QueryError α)}
    (running : t.phase = .running) (atEnd : t.ahead = t.log.size) (h : Emits t.inner outcomes) :
    Emits t outcomes := by
  obtain ⟨inner, log, cursor, phase⟩ := t
  dsimp only at running h
  subst running
  induction h generalizing log cursor with
  | @done s after hn =>
    have answer := next_at_end (t := ⟨s, log, cursor, .running⟩) rfl atEnd
    rw [hn] at answer
    exact .done answer
  | @item s after a rest hn _ ih =>
    have answer := next_at_end (t := ⟨s, log, cursor, .running⟩) rfl atEnd
    rw [hn] at answer
    exact .item answer (ih (log.push a) (some log.size) (Array.size_push ..).symm)
  | @fail s after e rest hn _ ih =>
    have answer := next_at_end (t := ⟨s, log, cursor, .running⟩) rfl atEnd
    rw [hn] at answer
    exact .fail answer (ih log cursor atEnd)

theorem runs {t : Timeline σ α} {outcomes : List (Except QueryError α)}
    (h : Runs t.inner outcomes) : Runs t outcomes := by
  obtain ⟨opened, started, run⟩ := h
  exact ⟨_, start_of_ok started, emits_at_end rfl rfl run⟩

end Timeline

namespace Pipeline

variable [Iterator σ Tuple] {outcomes : List (Except QueryError Tuple)}

theorem runs_source {s : σ} (h : Runs s outcomes) : Runs (source s) outcomes :=
  h.inside start_source next_source

theorem runs_projection {p : Projection (Pipeline σ)} (h : Runs p.inner outcomes) :
    Runs (projection p) (outcomes.map (Projection.outcome p.outputs)) :=
  p.runs h |>.inside start_projection next_projection

theorem runs_timeline {t : Timeline (Pipeline σ) Tuple} (h : Runs t.inner outcomes) :
    Runs (timeline t) outcomes :=
  t.runs h |>.inside start_timeline next_timeline

end Pipeline
end PullAlgebra
