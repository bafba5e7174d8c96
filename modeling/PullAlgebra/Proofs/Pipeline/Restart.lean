import PullAlgebra.Proofs.Pipeline.History
import PullAlgebra.Proofs.Source.EquiJoin

/-!
# PullAlgebra.Proofs.Pipeline.Restart

Starting again. A history leaves traces in a pipeline: a position among the rows, a table with the
rows of an earlier run, a log with a cursor. A start that succeeds replaces all of them, so the
state after it is the one after the first start of a pipeline that was just built, and a pipeline
that is built can always be started.

* `Source.exists_start`: one state after the start, whatever happened to the source before.
* `Fresh.exists_start`: the same for pipelines.
* `start_forgets_history`: hence a run does not depend on the history before its start.
-/

namespace PullAlgebra

namespace Source

theorem exists_start_of_build {join : Join} {r s : Relation} {source : Source}
    (h : join.build r s = .ok source) : ∃ opened, source.start = ⟨.ok (), opened⟩ := by
  cases join with
  | cross =>
    obtain ⟨j, -, rfl⟩ := map_eq_ok h
    exact ⟨_, rfl⟩
  | theta predicate =>
    obtain ⟨j, -, rfl⟩ := map_eq_ok h
    exact ⟨_, rfl⟩
  | hash keys =>
    obtain ⟨j, hj, rfl⟩ := map_eq_ok h
    obtain ⟨hr, hs, joined, pairs, paired, hl, hk⟩ := paired_of_ofRelations hj
    obtain ⟨opened, started, -⟩ := exists_start_hash joined paired hr hs hl hk
    exact ⟨.hash opened, congrArg (Reply.inside hash) started⟩

/-- A source that can be started comes into the same state from whatever it was reset from. -/
theorem start_of_reset {o source opened : Source} (h : source.start = ⟨.ok (), opened⟩)
    (same : o.reset = source) : o.start = ⟨.ok (), opened⟩ := by
  rcases o.start_eq_or_fails with eq | ⟨e, -, fails⟩
  · rw [eq, same, h]
  · rw [same, h] at fails
    cases fails

end Source

namespace Pipeline

theorem eq_source_of_reset {o : Pipeline Source} {s : Source} (h : o.reset = .source s) :
    ∃ s', o = .source s' ∧ s'.reset = s := by
  cases o with
  | source s' => exact ⟨s', rfl, Pipeline.source.inj h⟩
  | projection p => cases h
  | timeline t => cases h
  | probe p => cases h

theorem eq_projection_of_reset {o : Pipeline Source} {p : Projection (Pipeline Source)}
    (h : o.reset = .projection p) :
    ∃ q, o = .projection q ∧ q.inner.reset = p.inner ∧ q.outputs = p.outputs ∧
      q.schema = p.schema := by
  cases o with
  | source s => cases h
  | projection q => cases h; exact ⟨q, rfl, rfl, rfl, rfl⟩
  | timeline t => cases h
  | probe q => cases h

theorem eq_timeline_of_reset {o : Pipeline Source} {t : Timeline (Pipeline Source) Tuple}
    (h : o.reset = .timeline t) : ∃ u, o = .timeline u ∧ u.inner.reset = t.inner := by
  cases o with
  | source s => cases h
  | projection p => cases h
  | timeline u => cases h; exact ⟨u, rfl, rfl⟩
  | probe p => cases h

end Pipeline

/-- There is one state into which a start brings a pipeline that is built, and every state that came
from it by calls. -/
theorem Fresh.exists_start {o : Pipeline Source} (h : Fresh o) :
    ∃ opened, ∀ u : Pipeline Source, u.reset = o → Iterator.start u = ⟨.ok (), opened⟩ := by
  -- the state is built along with the pipeline; of `u` only what it was reset to is known
  induction h with
  | scan r =>
    refine ⟨.source (Source.ofRelation r).start.after, ?_⟩
    intro u hu
    obtain ⟨s, rfl, same⟩ := Pipeline.eq_source_of_reset hu
    exact congrArg (Reply.inside Pipeline.source) (Source.start_of_reset rfl same)
  | join built =>
    obtain ⟨opened, started⟩ := Source.exists_start_of_build built
    refine ⟨.source opened, ?_⟩
    intro u hu
    obtain ⟨s, rfl, same⟩ := Pipeline.eq_source_of_reset hu
    exact congrArg (Reply.inside Pipeline.source) (Source.start_of_reset started same)
  | @project _ _ outputs _ projected ih =>
    obtain ⟨schema, -, rfl⟩ := Pipeline.project_eq_ok projected
    obtain ⟨opened, started⟩ := ih
    refine ⟨.projection ⟨opened, outputs, schema, .running⟩, ?_⟩
    intro u hu
    obtain ⟨q, rfl, inner, rfl, rfl⟩ := Pipeline.eq_projection_of_reset hu
    exact congrArg (Reply.inside Pipeline.projection)
      (Projection.start_of_ok (started q.inner inner))
  | logged _ ih =>
    obtain ⟨opened, started⟩ := ih
    refine ⟨.timeline ⟨opened, #[], none, .running⟩, ?_⟩
    intro u hu
    obtain ⟨t, rfl, inner⟩ := Pipeline.eq_timeline_of_reset hu
    exact congrArg (Reply.inside Pipeline.timeline) (Timeline.start_of_ok (started t.inner inner))

theorem Fresh.exists_start_after {o : Pipeline Source} (h : Fresh o) :
    ∃ opened, ∀ history, (o.after history).start = ⟨.ok (), opened⟩ := by
  obtain ⟨opened, started⟩ := h.exists_start
  exact ⟨opened, fun history => started _ ((o.reset_after history).trans h.reset_eq)⟩

/-- A start succeeds after every history, and what comes after it is as if the pipeline had just
been built: the state, the answers to all further calls, and a whole run. -/
theorem start_forgets_history {o : Pipeline Source} (h : Fresh o) (history : List Command) :
    (∃ opened, Iterator.start o = ⟨.ok (), opened⟩ ∧
      Iterator.start (o.after history) = ⟨.ok (), opened⟩) ∧
      (∀ further, (o.after (history ++ [.start])).answers further =
        (o.after [.start]).answers further) ∧
      collect (o.after history) = collect o := by
  obtain ⟨opened, started⟩ := h.exists_start
  have fresh := started o h.reset_eq
  have again := started (o.after history) ((o.reset_after history).trans h.reset_eq)
  refine ⟨⟨opened, fresh, again⟩, ?_, ?_⟩
  · intro further
    have same : o.after (history ++ [.start]) = o.after [.start] := by
      rw [Pipeline.after, List.foldl_append]
      change (Iterator.start (o.after history)).after = (Iterator.start o).after
      rw [again, fresh]
    rw [same]
  · unfold collect foldRun
    rw [again, fresh]

/-- A timeline that stands on its first row, with the second one in its log, is collected whole. -/
theorem abandoned_rows_collected_again :
    ∃ r rows, Fresh (Pipeline.source (Source.ofRelation r)).logged ∧
      (collect ((Pipeline.source (Source.ofRelation r)).logged.after
        [.start, .next, .next, .previous])).result = .ok rows ∧
      rows.toList.map Tuple.values = [[.integer 1], [.integer 2]] := by
  let r := Relation.ofColumn ⟨"n", .integer⟩ [.integer 1, .integer 2] (by decide)
  have fresh : Fresh (Pipeline.source (Source.ofRelation r)).logged := .logged (.scan r)
  obtain ⟨-, -, whole⟩ := start_forgets_history fresh [.start, .next, .next, .previous]
  have rows : (collect (Pipeline.source (Source.ofRelation r)).logged).result = .ok #[_, _] :=
    collect_of_emits rfl (.item rfl (.item rfl (.done rfl)))
  rw [← whole] at rows
  exact ⟨r, _, fresh, rows, rfl⟩

end PullAlgebra
