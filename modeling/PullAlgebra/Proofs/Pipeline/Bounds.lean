import PullAlgebra.Proofs.Pipeline.Faults
import PullAlgebra.Proofs.Pipeline.Restart
import PullAlgebra.Proofs.Source.Bounds
import PullAlgebra.Proofs.Tuple.Restored

/-!
# PullAlgebra.Proofs.Pipeline.Bounds

No look-up by number fails. Rows, buckets and fields are looked up by numbers that were found in an
earlier call or when the pipeline was built, while tables are built and given up in between.

* `Pipeline.base_start`, `base_next`, `base_close`: the operators above a source call it or leave it
  alone, so what its own calls preserve is preserved by all calls on the pipeline.
* `look_ups_in_bounds`: whatever is called, all numbers that the source of a pipeline keeps lead to
  something, and so do the names of the fields of all tuples.
-/

namespace PullAlgebra

namespace Pipeline

section Base

variable {σ : Type} [Iterator σ Tuple] {P : σ → Prop} {o : Pipeline σ}

theorem base_start (keeps : ∀ s, P s → P (Iterator.start s).after) (h : P o.base) :
    P o.start.after.base := by
  induction o with
  | source s => exact keeps s h
  | projection p ih =>
    obtain ⟨phase, after⟩ := p.after_start
    rw [start_projection, Reply.inside, after]
    exact ih h
  | timeline t ih =>
    change P (Iterator.start t).after.inner.base
    rw [t.inner_start]
    exact ih h
  | probe p ih =>
    obtain ⟨inner, starts, after, asked⟩ := p.after_start
    change P (base (.probe (Iterator.start p).after))
    rw [after]
    rcases asked with rfl | rfl
    · exact h
    · exact ih h

theorem base_next (keeps : ∀ s, P s → P (Iterator.next s).after) (h : P o.base) :
    P o.next.after.base := by
  induction o with
  | source s => exact keeps s h
  | projection p ih =>
    change P (Iterator.next p).after.inner.base
    rcases p.after_next with after | ⟨phase, after⟩
    · rw [after]
      exact h
    · rw [after]
      exact ih h
  | timeline t ih =>
    change P (Iterator.next t).after.inner.base
    rcases t.inner_next with same | asked
    · rw [same]
      exact h
    · rw [asked]
      exact ih h
  | probe p ih =>
    obtain ⟨inner, nexts, after, asked⟩ := p.after_next
    change P (base (.probe (Iterator.next p).after))
    rw [after]
    rcases asked with rfl | rfl
    · exact h
    · exact ih h

theorem base_close (keeps : ∀ s, P s → P (Iterator.close s)) (h : P o.base) : P o.close.base := by
  induction o with
  | source s => exact keeps s h
  | projection p ih => exact ih h
  | timeline t ih => exact ih h
  | probe p ih => exact ih h

end Base

theorem base_perform (o : Pipeline Source) (c : Command) (h : o.base.Sound) :
    (o.perform c).after.base.Sound := by
  cases c with
  | start =>
    refine base_start (P := Source.Sound) ?_ h
    intro s sound
    obtain ⟨opened, started, kept⟩ := Source.sound_start sound
    change s.start.after.Sound
    rw [started]
    exact kept
  | next => exact base_next (P := Source.Sound) (fun _ => Source.sound_next) h
  | close => exact base_close (P := Source.Sound) (fun _ => Source.sound_close) h
  | previous =>
    cases o with
    | timeline t =>
      change t.previous.after.inner.base.Sound
      rw [t.inner_previous]
      exact h
    | _ => exact h

end Pipeline

theorem Fresh.sound_base {o : Pipeline Source} (h : Fresh o) : o.base.Sound := by
  induction h with
  | scan r => trivial
  | join built => exact Source.sound_of_build built
  | project _ projected ih =>
    obtain ⟨schema, -, rfl⟩ := Pipeline.project_eq_ok projected
    exact ih
  | logged _ ih => exact ih

theorem Fresh.sound_after {o : Pipeline Source} (h : Fresh o) (history : List Command) :
    (o.after history).base.Sound :=
  Pipeline.after_induction (P := fun u : Pipeline Source => u.base.Sound) Pipeline.base_perform
    h.sound_base history

/-- After any calls, the source of a pipeline keeps no number that leads past what it is looked up
in: it can be started again, and when its next call fails, it was made outside of a run or a
predicate has failed. The schema of a tuple is not refused, and the position that it has for a name
is that of a field. -/
theorem look_ups_in_bounds {o : Pipeline Source} (h : Fresh o) (history : List Command) :
    (o.after history).base.InBounds ∧
      (∃ opened, (o.after history).base.start = ⟨.ok (), opened⟩) ∧
      (∀ e, (o.after history).base.next.result = .error e →
        (o.after history).base.phase.isOpen = false ∧
            e = .invalidState (o.after history).base.operator .next (o.after history).base.phase ∨
          (o.after history).base.phase.isOpen ∧ (o.after history).base.PredicateFails e) ∧
      ∀ (t : Tuple) (name : String), Schema.ofColumns t.columns = .ok t.schema ∧
        (∀ i, t.schema.indexOf? name = some i → i < t.fields.length) ∧
        t.field? name = (t.schema.indexOf? name).bind fun i => t.fields[i]? := by
  have sound := h.sound_after history
  obtain ⟨opened, started, -⟩ := Source.sound_start sound
  refine ⟨Source.inBounds_of_sound sound, ⟨opened, started⟩, fun e => Source.error_of_next sound, ?_⟩
  intro t name
  exact ⟨t.ofColumns_columns, fun i => Tuple.lt_of_indexOf?, t.field?_eq name⟩

/-- A hash join is closed in the middle of a look-up and started again. The bucket of the look-up is
gone with the table, but the next call does not ask for it. -/
theorem abandoned_look_up_in_bounds :
    ∃ r s source, (Join.hash [("a", "b")]).build r s = .ok source ∧
      ((Pipeline.source source).after [.start, .next, .close, .start]).base.InBounds ∧
      ∃ found, ((Pipeline.source source).after [.start, .next, .close, .start]).base.next.result =
        .ok found := by
  let r := Relation.ofColumn ⟨"a", .integer⟩ [.integer 1, .integer 1] (by decide)
  let s := Relation.ofColumn ⟨"b", .integer⟩ [.integer 1, .integer 1] (by decide)
  have key : Paired r.schema s.schema ("a", "b") (0, 0) :=
    ⟨Relation.indexOf?_ofColumn, Relation.indexOf?_ofColumn, ⟨"a", .integer⟩, ⟨"b", .integer⟩,
      by rw [Relation.columns_ofColumn]; rfl, by rw [Relation.columns_ofColumn]; rfl, rfl⟩
  obtain ⟨j, hj⟩ := exists_hashJoin (by decide) (Relation.join_ofColumn (by decide)) (.cons key .nil)
  have built := Join.build_hash_of_ok hj
  have fresh : Fresh (.source (.hash j)) := .join built
  obtain ⟨-, ⟨opened, started⟩, -⟩ := look_ups_in_bounds fresh [.start, .next, .close]
  obtain ⟨inBounds, -, fails, -⟩ := look_ups_in_bounds fresh [.start, .next, .close, .start]
  have reached : ((Pipeline.source (.hash j)).after [.start, .next, .close, .start]).base = opened :=
    congrArg Reply.after started
  have running := Source.phase_of_start_ok started
  rw [reached] at inBounds fails
  refine ⟨r, s, .hash j, built, by rwa [reached], ?_⟩
  rw [reached]
  cases answer : opened.next.result with
  | ok found => exact ⟨found, rfl⟩
  | error e =>
    rcases fails e answer with ⟨notOpen, -⟩ | ⟨-, failed⟩
    · rw [running] at notOpen
      cases notOpen
    · -- a hash join has no predicate
      rw [← reached] at failed
      exact False.elim failed

end PullAlgebra
