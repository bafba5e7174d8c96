import PullAlgebra.Proofs.Pipeline.History
import PullAlgebra.Proofs.Relation.OneColumn
import PullAlgebra.Proofs.Relation.Rebuilt
import PullAlgebra.Proofs.Tuple.Operations

/-!
# PullAlgebra.Proofs.Pipeline.Layout

The schema of a pipeline as a promise about its tuples. A projection resolves its columns against
the schema below it, once and without seeing a tuple; each tuple is then projected by itself. Both
agree, so from the sources up every tuple has the columns of the schema.

* `Pipeline.Conforms`: what a state must satisfy for the promise to be kept from then on.
* `conforms_perform`: every call keeps it, and answers with a tuple of the schema if with one.
* `tuples_have_schema`: what is built keeps its schema through every history, and what it collects
  is a relation of this schema.
-/

namespace PullAlgebra

/-! ## The invariant -/

namespace Pipeline

/-- Every projection has the schema that it makes of the one below, and every log has rows of the
schema below. -/
def Conforms : Pipeline Source → Prop
  | .source _ => True
  | .projection ⟨inner, outputs, schema, _⟩ =>
    inner.schema.project outputs = .ok schema ∧ inner.Conforms
  | .timeline ⟨inner, log, _, _⟩ => (∀ t ∈ log, t.columns = inner.schema.columns) ∧ inner.Conforms
  | .probe ⟨inner, _, _, _, _, _⟩ => inner.Conforms

theorem schema_start (o : Pipeline Source) : o.start.after.schema = o.schema := by
  rw [← schema_reset, reset_start, schema_reset]

theorem schema_next (o : Pipeline Source) : o.next.after.schema = o.schema := by
  rw [← schema_reset, reset_next, schema_reset]

theorem schema_close (o : Pipeline Source) : o.close.schema = o.schema := by
  rw [← schema_reset, reset_close, schema_reset]

theorem conforms_projection {p : Projection (Pipeline Source)}
    (h : Conforms (.projection p)) {inner : Pipeline Source} (same : inner.schema = p.inner.schema)
    (conforms : inner.Conforms) (phase : Phase) :
    Conforms (.projection { p with inner, phase }) := by
  refine ⟨?_, conforms⟩
  rw [same]
  exact h.1

theorem conforms_timeline {t u : Timeline (Pipeline Source) Tuple}
    (same : u.inner.schema = t.inner.schema) (conforms : u.inner.Conforms)
    (logged : ∀ a ∈ u.log, a.columns = t.inner.schema.columns) : Conforms (.timeline u) := by
  refine ⟨?_, conforms⟩
  intro a ha
  rw [same]
  exact logged a ha

theorem conforms_start {o : Pipeline Source} (h : o.Conforms) : o.start.after.Conforms := by
  induction o with
  | source s => trivial
  | projection p ih =>
    obtain ⟨phase, after⟩ := p.after_start
    change Conforms (.projection (Iterator.start p).after)
    rw [after]
    exact conforms_projection h p.inner.schema_start (ih h.2) phase
  | timeline t ih =>
    change Conforms (.timeline (Iterator.start t).after)
    refine conforms_timeline (t := t) ?_ ?_ ?_
    · rw [t.inner_start]
      exact t.inner.schema_start
    · rw [t.inner_start]
      exact ih h.2
    · intro a ha
      exact h.1 a (Timeline.mem_log_of_start ha)
  | probe p ih =>
    obtain ⟨inner, starts, after, asked⟩ := p.after_start
    change Conforms (.probe (Iterator.start p).after)
    rw [after]
    rcases asked with rfl | rfl
    · exact h
    · exact ih h

theorem conforms_next {o : Pipeline Source} (h : o.Conforms) :
    o.next.after.Conforms ∧ ∀ t, o.next.result = .ok (some t) → t.columns = o.schema.columns := by
  induction o with
  | source s => exact ⟨trivial, fun t ht => Source.columns_of_next ht⟩
  | projection p ih =>
    obtain ⟨conforms, columns⟩ := ih h.2
    constructor
    · change Conforms (.projection (Iterator.next p).after)
      rcases p.after_next with after | ⟨phase, after⟩
      · rw [after]
        exact h
      · rw [after]
        exact conforms_projection h p.inner.schema_next conforms phase
    · intro t ht
      obtain ⟨u, hu, projected⟩ := Projection.exists_of_next ht
      exact Tuple.columns_of_project (columns u hu) (mapError_eq_ok projected) h.1
  | timeline t ih =>
    obtain ⟨conforms, columns⟩ := ih h.2
    -- a yielded row and a row of the new log come from the same two places
    have logged : ∀ a, (Iterator.next t).result = .ok (some a) ∨ a ∈ (Iterator.next t).after.log →
        a.columns = t.inner.schema.columns := by
      intro a ha
      exact (Timeline.mem_of_next ha).elim (h.1 a) (columns a)
    constructor
    · have rows : ∀ a ∈ (Iterator.next t).after.log, a.columns = t.inner.schema.columns := by
        intro a ha
        exact logged a (.inr ha)
      change Conforms (.timeline (Iterator.next t).after)
      rcases t.inner_next with inner | inner
      · exact conforms_timeline (congrArg _ inner) (inner ▸ h.2) rows
      · exact conforms_timeline ((congrArg _ inner).trans t.inner.schema_next)
          (inner ▸ conforms) rows
    · intro a ha
      exact logged a (.inl ha)
  | probe p ih =>
    obtain ⟨conforms, columns⟩ := ih h
    obtain ⟨inner, nexts, after, asked⟩ := p.after_next
    constructor
    · change Conforms (.probe (Iterator.next p).after)
      rw [after]
      rcases asked with rfl | rfl
      · exact h
      · exact conforms
    · intro t ht
      exact columns t (Probe.result_of_next ht)

theorem conforms_close {o : Pipeline Source} (h : o.Conforms) : o.close.Conforms := by
  induction o with
  | source s => trivial
  | projection p ih => exact conforms_projection h p.inner.schema_close (ih h.2) .closed
  | timeline t ih => exact conforms_timeline (t := t) t.inner.schema_close (ih h.2) h.1
  | probe p ih => exact ih h

theorem conforms_perform {o : Pipeline Source} (h : o.Conforms) (c : Command) :
    (o.perform c).after.Conforms ∧
      ∀ t, (o.perform c).result = .ok (some t) → t.columns = o.schema.columns := by
  cases c with
  | start =>
    refine ⟨conforms_start h, ?_⟩
    intro t ht
    obtain ⟨_, -, e⟩ := map_eq_ok ht
    cases e
  | next => exact conforms_next h
  | close => exact ⟨conforms_close h, nofun⟩
  | previous =>
    cases o with
    | timeline t =>
      have inner := t.inner_previous
      constructor
      · refine conforms_timeline (congrArg _ inner) (inner ▸ h.2) ?_
        rw [t.log_previous]
        exact h.1
      · intro a ha
        obtain ⟨b, hb, e⟩ := map_eq_ok ha
        cases e
        exact h.1 a (Timeline.mem_log_of_previous hb)
    | _ => exact ⟨h, nofun⟩

theorem conforms_after {o : Pipeline Source} (h : o.Conforms) (history : List Command) :
    (o.after history).Conforms :=
  after_induction (P := Conforms) (fun _ c h => (conforms_perform h c).1) h history

end Pipeline

theorem Fresh.conforms {o : Pipeline Source} (h : Fresh o) : o.Conforms := by
  induction h with
  | scan r => trivial
  | join built => trivial
  | project _ projected ih =>
    obtain ⟨schema, resolved, rfl⟩ := Pipeline.project_eq_ok projected
    exact ⟨resolved, ih⟩
  | logged _ ih => exact ⟨nofun, ih⟩

/-- What is built has the same schema after every history of calls, and every tuple with which a
call answers has its columns and values in their form. What a run collects is therefore a relation
of this schema, and a scan of it collects the same again. -/
theorem tuples_have_schema {o : Pipeline Source} (h : Fresh o) (history : List Command) :
    (o.after history).schema = o.schema ∧
      (∀ t, .ok (some t) ∈ o.answers history →
        t.columns = o.schema.columns ∧ ∀ f ∈ t.fields, f.column.type.Stores f.value) ∧
      ∀ rows, (collect (o.after history)).result = .ok rows →
        ∃ r, Relation.ofTuples (o.after history).schema rows.toList = .ok r ∧ r.schema = o.schema ∧
          (collect (Scan.ofRelation r)).result = .ok rows := by
  refine ⟨o.schema_after history, ?_, ?_⟩
  · intro t ht
    obtain ⟨earlier, c, answer⟩ := Pipeline.exists_of_mem_answers ht
    have columns := (Pipeline.conforms_perform (Pipeline.conforms_after h.conforms earlier) c).2 t answer
    rw [o.schema_after earlier] at columns
    exact ⟨columns, t.stored⟩
  · intro rows collected
    rw [o.schema_after history]
    have columns : ∀ t ∈ rows, t.columns = o.schema.columns := by
      refine forall_of_collect (P := fun u => u.Conforms ∧ u.schema = o.schema) ?_ ?_ collected
      · exact ⟨Pipeline.conforms_start (Pipeline.conforms_after h.conforms history),
          (Pipeline.schema_start _).trans (o.schema_after history)⟩
      · intro u hu
        obtain ⟨conforms, schema⟩ := hu
        obtain ⟨kept, yields⟩ := Pipeline.conforms_next conforms
        refine ⟨⟨kept, u.schema_next.trans schema⟩, ?_⟩
        intro t ht
        rw [← schema]
        exact yields t ht
    have listed : ∀ t ∈ rows.toList, t.columns = o.schema.columns := by
      intro t ht
      exact columns t (Array.mem_toList_iff.1 ht)
    obtain ⟨r, built, schema, tuples⟩ := Relation.exists_ofTuples listed
    refine ⟨r, built, schema, ?_⟩
    rw [Scan.collect_ofRelation, tuples]

/-- A column under a timeline and a new name, started, stepped and closed before its rows are
collected. -/
theorem renamed_column_has_schema :
    ∃ r o rows, (Pipeline.source (Source.ofRelation r)).logged.project [⟨"n", some "m"⟩] = .ok o ∧
      o.schema.columns = [⟨"m", .integer⟩] ∧
      (collect (o.after [.start, .next, .close])).result = .ok rows ∧
      rows.toList.map Tuple.values = [[.integer 1], [.integer 2]] ∧
      ∃ r', Relation.ofTuples (o.after [.start, .next, .close]).schema rows.toList = .ok r' ∧
        r'.schema = o.schema ∧ (collect (Scan.ofRelation r')).result = .ok rows := by
  let r := Relation.ofColumn ⟨"n", .integer⟩ [.integer 1, .integer 2] (by decide)
  let o : Pipeline Source := (Pipeline.source (.ofRelation r)).logged
  have resolved : r.schema.project [⟨"n", some "m"⟩] =
      .ok (.ofDistinct [⟨"m", .integer⟩] (by simp)) := Relation.project_ofColumn "m"
  let p : Pipeline Source :=
    .projection ⟨o, [⟨"n", some "m"⟩], .ofDistinct [⟨"m", .integer⟩] (by simp), .unopened⟩
  have built : o.project [⟨"n", some "m"⟩] = .ok p := by
    change (r.schema.project _).map _ = _
    rw [resolved]
    rfl
  have fresh : Fresh p := .project (.logged (.scan r)) built
  obtain ⟨-, -, whole⟩ := tuples_have_schema fresh [.start, .next, .close]
  have rows : (collect (p.after [.start, .next, .close])).result = .ok #[_, _] :=
    collect_of_emits rfl (.item rfl (.item rfl (.done rfl)))
  refine ⟨r, p, _, built, Schema.columns_ofDistinct (by simp), rows, ?_, whole _ rows⟩
  rfl

end PullAlgebra
