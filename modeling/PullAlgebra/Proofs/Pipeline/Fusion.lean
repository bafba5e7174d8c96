import PullAlgebra.Proofs.Pipeline.Layout
import PullAlgebra.Proofs.Pipeline.Nesting
import PullAlgebra.Proofs.Tuple.Composition

/-!
# PullAlgebra.Proofs.Pipeline.Fusion

A projection over a projection. Both are always in the same phase, so a call that one of them refuses
never comes to the other one, and every tuple that the pipeline below yields is projected twice. One
projection by both choices together answers every call in the same way, if only the tuples have the
columns against which the choices were resolved.

* `Pipeline.Yields`: which columns the tuples have, whatever is called.
* `Pipeline.Fused`: the two projections and the one that stands for them, in the same state.
* `Pipeline.fused_perform`: each call is answered alike and keeps them so.
* `consecutive_projections_fuse`: schemas, tuples and pipelines.
-/

namespace PullAlgebra

namespace Pipeline

variable {σ : Type} [Iterator σ Tuple]

/-- Through whatever calls, the tuples that are yielded have the columns of the schema, in some
order. -/
def Yields (o : Pipeline σ) (s : Schema) : Prop :=
  ∀ history, .previous ∉ history → ∀ t, (o.after history).next.result = .ok (some t) → t.fits s = true

theorem yields_perform {o : Pipeline σ} {s : Schema} (h : o.Yields s) {c : Command}
    (forward : c ≠ .previous) : (o.perform c).after.Yields s := by
  intro history calls
  exact h (c :: history) (by simp [forward.symm, calls])

/-- A projection over a projection, and one projection by both choices, over the same pipeline and in
the same phase. -/
inductive Fused (s : Schema) (first second : List OutputColumn) : Pipeline σ → Pipeline σ → Prop
  | intro {inner : Pipeline σ} {firstSchema secondSchema schema : Schema} {phase : Phase} :
      inner.Yields s →
      Fused s first second
        (.projection ⟨.projection ⟨inner, first, firstSchema, phase⟩, second, secondSchema, phase⟩)
        (.projection ⟨inner, fused first second, schema, phase⟩)

/-! ## One call -/

theorem start_projection_of {p : Projection (Pipeline σ)} {reply : Reply (Pipeline σ) Unit}
    (below : p.inner.start = reply) : start (.projection p) = (p.started reply).inside projection := by
  subst below
  rfl

theorem next_projection_of {p : Projection (Pipeline σ)} {reply : Reply (Pipeline σ) (Option Tuple)}
    (running : p.phase = .running) (below : p.inner.next = reply) :
    next (.projection p) = (p.yielded reply).inside projection := by
  subst below
  exact congrArg (Reply.inside projection) (Projection.next_of_running running)

variable {s t : Schema} {first second : List OutputColumn} {two one : Pipeline σ}

theorem fused_start (h : Fused s first second two one) :
    two.start.result = one.start.result ∧ Fused s first second two.start.after one.start.after := by
  obtain @⟨inner, firstSchema, secondSchema, schema, phase, yields⟩ := h
  have kept : inner.start.after.Yields s := yields_perform yields (c := .start) nofun
  match below : inner.start with
  | ⟨.ok (), after⟩ =>
    rw [below] at kept
    rw [start_projection_of (start_projection_of below), start_projection_of below]
    exact ⟨rfl, .intro kept⟩
  | ⟨.error e, after⟩ =>
    rw [below] at kept
    rw [start_projection_of (start_projection_of below), start_projection_of below]
    exact ⟨rfl, .intro kept⟩

section Choices

variable (projected : s.project first = .ok t)
  (known : ∀ o ∈ second, o.column ∈ first.map OutputColumn.name)
include projected known

theorem fused_next (h : Fused s first second two one) :
    two.next.result = one.next.result ∧ Fused s first second two.next.after one.next.after := by
  obtain @⟨inner, firstSchema, secondSchema, schema, phase, yields⟩ := h
  by_cases running : phase = .running
  · subst running
    have kept : inner.next.after.Yields s := yields_perform yields (c := .next) nofun
    match below : inner.next with
    | ⟨.ok (some u), after⟩ =>
      have fits : u.fits s = true := yields [] (by simp) u (congrArg Reply.result below)
      obtain ⟨v, chosen, -⟩ := Tuple.exists_project_of_fits fits projected
      have between : next (.projection ⟨inner, first, firstSchema, .running⟩) =
          ⟨.ok (some v), .projection ⟨after, first, firstSchema, .running⟩⟩ := by
        rw [next_projection_of rfl below, Projection.yielded, chosen]
        rfl
      rw [below] at kept
      rw [next_projection_of rfl between, next_projection_of rfl below, Projection.yielded,
        Projection.yielded, Tuple.project_project chosen known]
      exact ⟨rfl, .intro kept⟩
    | ⟨.ok none, after⟩ =>
      rw [below] at kept
      rw [next_projection_of rfl (next_projection_of rfl below), next_projection_of rfl below]
      exact ⟨rfl, .intro kept⟩
    | ⟨.error e, after⟩ =>
      rw [below] at kept
      rw [next_projection_of rfl (next_projection_of rfl below), next_projection_of rfl below]
      exact ⟨rfl, .intro kept⟩
  · -- the outer projection and the only one refuse the call, or are exhausted, under the same name
    rw [next_projection, next_projection, Projection.next_of_not_asks (by simpa [Projection.asks]),
      Projection.next_of_not_asks (by simpa [Projection.asks])]
    exact ⟨rfl, .intro yields⟩

theorem fused_perform (h : Fused s first second two one) (c : Command) :
    (two.perform c).result = (one.perform c).result ∧
      Fused s first second (two.perform c).after (one.perform c).after := by
  cases c with
  | start =>
    obtain ⟨same, kept⟩ := fused_start h
    exact ⟨congrArg (Except.map fun _ => none) same, kept⟩
  | next => exact fused_next projected known h
  | close =>
    obtain ⟨yields⟩ := h
    exact ⟨rfl, .intro (yields_perform yields (c := .close) nofun)⟩
  | previous =>
    obtain ⟨yields⟩ := h
    exact ⟨rfl, .intro yields⟩

theorem answers_of_fused (h : Fused s first second two one) (calls : List Command) :
    two.answers calls = one.answers calls := by
  induction calls generalizing two one with
  | nil => rfl
  | cons c calls ih =>
    obtain ⟨same, kept⟩ := fused_perform projected known h c
    rw [answers, answers, same, ih kept]

end Choices

/-! ## Pipelines that are built -/

omit [Iterator σ Tuple] in
theorem project_of_schema [HasSchema σ] {o : Pipeline σ} {outputs : List OutputColumn}
    (same : o.schema.sameColumns s = true) (h : s.project outputs = .ok t) :
    o.project outputs = .ok (.projection ⟨o, outputs, t, .unopened⟩) := by
  rw [project, Schema.project_of_sameColumns same, h]
  rfl

end Pipeline

open Pipeline

theorem Fresh.yields {o : Pipeline Source} (h : Fresh o)
    (history : List Command) : (o.after history).Yields o.schema := by
  intro further _ t ht
  rw [← after_append] at ht
  have columns := (conforms_next (conforms_after h.conforms (history ++ further))).2 t ht
  rw [schema_after] at columns
  rw [Tuple.fits_iff_perm, columns]

/-- A choice of columns from what another choice puts out comes to one choice from the input, with the
same columns or the same name that is repeated: for the schema, for each tuple with its columns in
whatever order, and for every pipeline that yields such tuples. There one projection answers every
sequence of calls as two of them do. The pipelines that are built from sources yield such tuples, in
whatever state they are. -/
theorem consecutive_projections_fuse {s t : Schema} {first second : List OutputColumn}
    (projected : s.project first = .ok t)
    (known : ∀ o ∈ second, o.column ∈ first.map OutputColumn.name) :
    t.project second = s.project (fused first second) ∧
    (∀ u : Tuple, u.fits s = true → ∃ v, u.project first = .ok v ∧
      v.project second = u.project (fused first second)) ∧
    (∀ (σ : Type) [Iterator σ Tuple] [HasSchema σ] (o : Pipeline σ) (schema : Schema),
      o.schema.sameColumns s = true → o.Yields s → s.project (fused first second) = .ok schema →
      ∃ inner two one, o.project first = .ok inner ∧ inner.project second = .ok two ∧
        o.project (fused first second) = .ok one ∧ two.schema = one.schema ∧
        ∀ calls, two.answers calls = one.answers calls) ∧
    ∀ o : Pipeline Source, Fresh o → ∀ history,
      (o.after history).schema = o.schema ∧ (o.after history).Yields o.schema := by
  have schemas := Schema.project_project projected known
  refine ⟨schemas, ?_, ?_, fun o fresh history => ⟨o.schema_after history, fresh.yields history⟩⟩
  · intro u fits
    obtain ⟨v, chosen, -⟩ := Tuple.exists_project_of_fits fits projected
    exact ⟨v, chosen, Tuple.project_project chosen known⟩
  · intro σ _ _ o schema same yields chosen
    have inner := project_of_schema same projected
    have own : t.sameColumns t = true := Schema.sameColumns_iff_perm.2 (.refl _)
    exact ⟨_, _, _, inner, project_of_schema own (schemas.trans chosen),
      project_of_schema same chosen, rfl, answers_of_fused projected known (.intro yields)⟩

/-- Two columns swap their names, and of those both names are taken again, one of them twice. -/
theorem swapped_names_fuse : ∃ (r : Relation) (first second : List OutputColumn)
    (inner two one : Pipeline Source),
    r.schema.columns = [⟨"a", .integer⟩, ⟨"b", .integer⟩] ∧
      first = [⟨"a", some "b"⟩, ⟨"b", some "a"⟩] ∧
      second = [⟨"b", some "x"⟩, ⟨"a", some "b"⟩, ⟨"b", some "a"⟩] ∧
      fused first second = [⟨"a", some "x"⟩, ⟨"b", some "b"⟩, ⟨"a", some "a"⟩] ∧
      (Pipeline.source (.ofRelation r)).project first = .ok inner ∧
      inner.project second = .ok two ∧
      (Pipeline.source (.ofRelation r)).project (fused first second) = .ok one ∧
      two.answers [.next, .start, .next, .next, .close, .next] =
        one.answers [.next, .start, .next, .next, .close, .next] ∧
      (one.answers [.next, .start, .next, .next, .close, .next]).map
          (Except.map (Option.map Tuple.values)) =
        [.error (.invalidState "ProjectionExecutor" .next .unopened), .ok none,
          .ok (some [.integer 1, .integer 2, .integer 1]), .ok none, .ok none,
          .error (.invalidState "ProjectionExecutor" .next .closed)] := by
  let columns : List Column := [⟨"a", .integer⟩, ⟨"b", .integer⟩]
  let row : Tuple :=
    ⟨[⟨⟨"a", .integer⟩, .integer 1⟩, ⟨⟨"b", .integer⟩, .integer 2⟩], by decide, by
      simp [Field.Stored, ColumnType.Stores, Value.type]⟩
  let s : Schema := .ofDistinct columns (by decide)
  have sColumns : s.columns = columns := Schema.columns_ofDistinct _
  let r : Relation := ⟨s, #[row], by simp [sColumns, row, columns, Tuple.columns]⟩
  let first : List OutputColumn := [⟨"a", some "b"⟩, ⟨"b", some "a"⟩]
  let second : List OutputColumn := [⟨"b", some "x"⟩, ⟨"a", some "b"⟩, ⟨"b", some "a"⟩]
  have names : s.names = ["a", "b"] := by rw [Schema.names, sColumns]; rfl
  obtain ⟨t, projected⟩ := @Schema.exists_project s first
    (by simp [names, first]) (by decide)
  obtain ⟨schema, direct⟩ := @Schema.exists_project s (fused first second)
    (by rw [names]; decide) (by decide)
  have fresh : Fresh (.source (.ofRelation r)) := .scan r
  have known : ∀ o ∈ second, o.column ∈ first.map OutputColumn.name := by decide
  obtain ⟨-, -, pipelines, kept⟩ := consecutive_projections_fuse projected known
  obtain ⟨inner, two, one, hInner, hTwo, hOne, -, same⟩ :=
    pipelines Source (.source (.ofRelation r)) schema (Schema.sameColumns_iff_perm.2 (.refl _))
      (kept _ fresh []).2 direct
  refine ⟨r, first, second, inner, two, one, sColumns, rfl, rfl, by decide, hInner, hTwo, hOne,
    same _, ?_⟩
  obtain ⟨schema', -, rfl⟩ := Pipeline.project_eq_ok hOne
  rfl

end PullAlgebra
