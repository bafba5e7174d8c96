import PullAlgebra.Proofs.Pipeline.Nesting
import PullAlgebra.Proofs.Source.Phases

/-!
# PullAlgebra.Proofs.Pipeline.Phases

The phases of all operators of a pipeline. Each operator keeps a phase of its own and looks at no
other one, so that the phases could drift apart. They do not: below an operator that is open every
operator is open. A call that the root lets through is therefore refused by no operator below.

* `phase_start`, `phase_next`, `phase_close`: the phase of the root after a call.
* `InStep`: the invariant; `inStep_perform` that every call keeps it.
* `next_of_not_isOpen`: what is refused, and under which name.
* `not_refused_next`, `not_refused_of_mem_asked`: what is not.
* `next_next_of_none`: a run that has come to its end stays there.
-/

namespace PullAlgebra

namespace Projection

variable {σ : Type} {p : Projection σ}

theorem not_refused_yielded (p : Projection σ) {reply : Reply σ (Option Tuple)}
    (h : ¬Refused reply.result) : ¬Refused (p.yielded reply).result := by
  match reply with
  | ⟨.ok (some t), _⟩ => exact fun refused => not_refused_liftTable _ (refused_map.1 refused)
  | ⟨.ok none, _⟩ => exact not_refused_ok _
  | ⟨.error _, _⟩ => simpa [yielded] using h

theorem not_refused_ownReply (p : Projection σ) (opened : p.phase.isOpen) :
    ¬Refused p.ownReply.result := by
  obtain ⟨_, producing⟩ := Phase.producing_of_isOpen opened "ProjectionExecutor"
  rw [ownReply, producing]
  exact not_refused_ok _

/-- A projection that has come to its end is exhausted itself, whatever the inner iterator does. -/
theorem next_next_of_none [Iterator σ Tuple] (h : (Iterator.next p).result = .ok none) :
    Iterator.next (Iterator.next p).after = ⟨.ok none, (Iterator.next p).after⟩ := by
  cases asks : p.asks with
  | true =>
    rw [next_of_asks asks] at h ⊢
    match asked : Iterator.next p.inner with
    | ⟨.ok (some _), _⟩ =>
      rw [asked] at h
      exact absurd h (map_some_ne_ok_none _)
    | ⟨.ok none, inner⟩ => rfl
    | ⟨.error _, _⟩ =>
      rw [asked] at h
      cases h
  | false =>
    rw [next_of_not_asks asks] at h ⊢
    exact (next_of_not_asks asks).trans (congrArg (Reply.mk · p) h)

end Projection

namespace Timeline

variable {σ α : Type} {t : Timeline σ α}

theorem phase_yielded (t : Timeline σ α) (reply : Reply σ (Option α)) :
    (t.yielded reply).after.phase = t.phase := by
  match reply with
  | ⟨.ok (some _), _⟩ => rfl
  | ⟨.ok none, _⟩ => rfl
  | ⟨.error _, _⟩ => rfl

theorem result_yielded (t : Timeline σ α) (reply : Reply σ (Option α)) :
    (t.yielded reply).result = reply.result := by
  match reply with
  | ⟨.ok (some _), _⟩ => rfl
  | ⟨.ok none, _⟩ => rfl
  | ⟨.error _, _⟩ => rfl

theorem phase_next [Iterator σ α] (t : Timeline σ α) : (Iterator.next t).after.phase = t.phase := by
  rcases t.next_cases with ⟨e, step⟩ | ⟨p, a, -, step⟩ | step
  · rw [step]
  · rw [step]
  · rw [step, phase_yielded]

theorem phase_previous (t : Timeline σ α) : t.previous.after.phase = t.phase := by
  rcases t.previous_cases with ⟨p, a, -, step⟩ | ⟨e, step⟩
  · rw [step]
  · rw [step]

theorem not_refused_ownReply (t : Timeline σ α) (opened : t.phase.isOpen) :
    ¬Refused t.ownReply.result := by
  obtain ⟨_, producing⟩ := Phase.producing_of_isOpen opened "Timeline"
  rw [ownReply, producing]
  exact not_refused_ok _

theorem ownReply_ne_none (h : t.asks = false) : t.ownReply.result ≠ .ok none := by
  unfold ownReply
  cases producing : t.phase.producing "Timeline" with
  | error e => nofun
  | ok _ =>
    obtain ⟨a, row⟩ := exists_row_of_not_asks h (Phase.isOpen_of_producing producing)
    simp [row]

/-- A timeline is never exhausted itself: it has come to its end when the inner iterator has, and
stays there if that one does. -/
theorem next_next_of_none [Iterator σ α] (sticky : (Iterator.next t.inner).result = .ok none →
      Iterator.next (Iterator.next t.inner).after = ⟨.ok none, (Iterator.next t.inner).after⟩)
    (h : (Iterator.next t).result = .ok none) :
    Iterator.next (Iterator.next t).after = ⟨.ok none, (Iterator.next t).after⟩ := by
  cases asks : t.asks with
  | true =>
    rw [next_of_asks asks] at h ⊢
    rw [result_yielded] at h
    have again := sticky h
    match asked : Iterator.next t.inner with
    | ⟨answer, inner⟩ =>
      rw [asked] at h again
      cases h
      have asks : Timeline.asks { t with inner } := asks
      rw [show t.yielded ⟨.ok none, inner⟩ = ⟨.ok none, { t with inner }⟩ from rfl,
        next_of_asks asks, again]
      rfl
  | false =>
    rw [next_of_not_asks asks] at h
    exact absurd h (ownReply_ne_none asks)

end Timeline

namespace Pipeline

/-- The phase of the root. A probe has none of its own. -/
def phase : Pipeline Source → Phase
  | .source s => s.phase
  | .projection p => p.phase
  | .timeline t => t.phase
  | .probe ⟨inner, _, _, _, _, _⟩ => inner.phase

/-- The name under which the root reports a call in a wrong phase. -/
def operator : Pipeline Source → String
  | .source s => s.operator
  | .projection _ => "ProjectionExecutor"
  | .timeline _ => "Timeline"
  | .probe ⟨inner, _, _, _, _, _⟩ => inner.operator

/-- The phases of all operators, from the root down to the source. -/
def phases : Pipeline Source → List Phase
  | .source s => [s.phase]
  | .projection ⟨inner, _, _, phase⟩ => phase :: inner.phases
  | .timeline ⟨inner, _, _, phase⟩ => phase :: inner.phases
  | .probe ⟨inner, _, _, _, _, _⟩ => inner.phases

theorem operator_reset (o : Pipeline Source) : o.reset.operator = o.operator := by
  induction o with
  | source s => cases s <;> rfl
  | projection p _ => rfl
  | timeline t _ => rfl
  | probe p ih => exact ih

theorem operator_after (o : Pipeline Source) (history : List Command) :
    (o.after history).operator = o.operator := by
  rw [← operator_reset, reset_after, operator_reset]

/-! ## The phase of the root after a call -/

theorem phase_start (o : Pipeline Source) :
    o.start.result = .ok () ∧ o.start.after.phase = .running ∨
      (∃ e, o.start.result = .error e) ∧ o.start.after.phase = o.phase := by
  induction o with
  | source s =>
    change s.start.result = _ ∧ s.start.after.phase = _ ∨
      (∃ e, s.start.result = _) ∧ s.start.after.phase = s.phase
    rcases s.start_cases with ⟨opened, step, running⟩ | ⟨e, step⟩
    · rw [step]
      exact .inl ⟨rfl, running⟩
    · rw [step]
      exact .inr ⟨⟨e, rfl⟩, rfl⟩
  | projection p _ =>
    rw [start_projection]
    rcases p.start_cases with ⟨inner, -, step⟩ | ⟨e, inner, -, step⟩
    · rw [step]
      exact .inl ⟨rfl, rfl⟩
    · rw [step]
      exact .inr ⟨⟨e, rfl⟩, rfl⟩
  | timeline t _ =>
    rw [start_timeline]
    rcases t.start_cases with ⟨inner, -, step⟩ | ⟨e, inner, -, step⟩
    · rw [step]
      exact .inl ⟨rfl, rfl⟩
    · rw [step]
      exact .inr ⟨⟨e, rfl⟩, rfl⟩
  | probe p ih =>
    rw [start_probe]
    rcases p.start_cases with ⟨count, step⟩ | ⟨count, step⟩
    · rw [step]
      exact .inr ⟨⟨_, rfl⟩, rfl⟩
    · rw [step]
      exact ih

theorem phase_of_start_ok {o opened : Pipeline Source} (h : o.start = ⟨.ok (), opened⟩) :
    opened.phase = .running := by
  rcases o.phase_start with ⟨-, running⟩ | ⟨⟨e, failed⟩, -⟩
  · rwa [h] at running
  · rw [h] at failed
    cases failed

theorem phase_of_start_error {o after : Pipeline Source} {e : QueryError}
    (h : o.start = ⟨.error e, after⟩) : after.phase = o.phase := by
  rcases o.phase_start with ⟨started, -⟩ | ⟨-, same⟩
  · rw [h] at started
    cases started
  · rwa [h] at same

theorem phase_next (o : Pipeline Source) :
    o.next.after.phase = o.phase ∨ o.phase = .running ∧ o.next.after.phase = .exhausted := by
  induction o with
  | source s => exact s.phase_next
  | projection p _ =>
    rw [next_projection]
    cases asks : p.asks with
    | true =>
      rw [Projection.next_of_asks asks]
      match Iterator.next p.inner with
      | ⟨.ok (some _), _⟩ => exact .inl rfl
      | ⟨.ok none, _⟩ => exact .inr ⟨eq_of_beq asks, rfl⟩
      | ⟨.error _, _⟩ => exact .inl rfl
    | false =>
      exact .inl (congrArg (·.after.phase) (Projection.nextBy_of_not_asks asks _))
  | timeline t _ => exact .inl t.phase_next
  | probe p ih =>
    obtain ⟨inner, nexts, after, asked⟩ := p.after_next
    change phase (.probe (Iterator.next p).after) = _ ∨ _ ∧ phase (.probe (Iterator.next p).after) = _
    rw [after]
    rcases asked with rfl | rfl
    · exact .inl rfl
    · exact ih

theorem isOpen_next (o : Pipeline Source) : o.next.after.phase.isOpen = o.phase.isOpen := by
  rcases o.phase_next with same | ⟨running, exhausted⟩
  · rw [same]
  · rw [running, exhausted]
    rfl

theorem phase_close (o : Pipeline Source) : o.close.phase = .closed := by
  induction o with
  | source s => exact s.phase_close
  | projection p _ => rfl
  | timeline t _ => rfl
  | probe p ih => exact ih

theorem phases_close (o : Pipeline Source) : ∀ phase ∈ o.close.phases, phase = .closed := by
  induction o with
  | source s => exact List.forall_mem_singleton.2 s.phase_close
  | projection p ih => exact List.forall_mem_cons.2 ⟨rfl, ih⟩
  | timeline t ih => exact List.forall_mem_cons.2 ⟨rfl, ih⟩
  | probe p ih => exact ih

theorem close_close {o : Pipeline Source} (h : o.Unprobed) : o.close.close = o.close := by
  induction o with
  | source s => exact congrArg Pipeline.source s.close_close
  | projection p ih =>
    exact congrArg (fun o => Pipeline.projection ⟨o, p.outputs, p.schema, .closed⟩) (ih h)
  | timeline t ih =>
    exact congrArg (fun o => Pipeline.timeline ⟨o, t.log, t.cursor, .closed⟩) (ih h)
  | probe p _ => exact False.elim h

/-! ## The invariant -/

/-- Below an operator that is open every operator is open. -/
def InStep : Pipeline Source → Prop
  | .source _ => True
  | .projection ⟨inner, _, _, phase⟩ => (phase.isOpen → inner.phase.isOpen) ∧ inner.InStep
  | .timeline ⟨inner, _, _, phase⟩ => (phase.isOpen → inner.phase.isOpen) ∧ inner.InStep
  | .probe ⟨inner, _, _, _, _, _⟩ => inner.InStep

theorem inStep_timeline {t : Timeline (Pipeline Source) Tuple} :
    InStep (.timeline t) ↔ (t.phase.isOpen → t.inner.phase.isOpen) ∧ t.inner.InStep := Iff.rfl

section Start

variable {phase : Phase} {inner after : Pipeline Source}

theorem over_started (below : inner.start.after.InStep) (started : inner.start = ⟨.ok (), after⟩) :
    (phase.isOpen → after.phase.isOpen) ∧ after.InStep := by
  rw [started] at below
  exact ⟨fun _ => by rw [phase_of_start_ok started]; rfl, below⟩

theorem over_unstarted {e : QueryError} (open_below : phase.isOpen → inner.phase.isOpen)
    (below : inner.start.after.InStep) (failed : inner.start = ⟨.error e, after⟩) :
    (phase.isOpen → after.phase.isOpen) ∧ after.InStep := by
  rw [failed] at below
  exact ⟨fun opened => by rw [phase_of_start_error failed]; exact open_below opened, below⟩

end Start

theorem inStep_start {o : Pipeline Source} (h : o.InStep) : o.start.after.InStep := by
  induction o with
  | source s => trivial
  | projection p ih =>
    rw [start_projection]
    rcases p.start_cases with ⟨_, started, step⟩ | ⟨_, _, failed, step⟩
    · rw [step]
      exact over_started (ih h.2) started
    · rw [step]
      exact over_unstarted h.1 (ih h.2) failed
  | timeline t ih =>
    rw [start_timeline]
    rcases t.start_cases with ⟨_, started, step⟩ | ⟨_, _, failed, step⟩
    · rw [step]
      exact over_started (ih h.2) started
    · rw [step]
      exact over_unstarted h.1 (ih h.2) failed
  | probe p ih =>
    obtain ⟨inner, starts, after, asked⟩ := p.after_start
    change InStep (.probe (Iterator.start p).after)
    rw [after]
    rcases asked with rfl | rfl
    · exact h
    · exact ih h

theorem inStep_next {o : Pipeline Source} (h : o.InStep) : o.next.after.InStep := by
  induction o with
  | source s => trivial
  | projection p ih =>
    rw [next_projection]
    cases asks : p.asks with
    | true =>
      -- only an open projection asks, so that the inner pipeline is open before and after
      have below : p.inner.next.after.phase.isOpen := by
        rw [isOpen_next]
        exact h.1 (Projection.isOpen_of_asks asks)
      obtain ⟨phase, after⟩ := p.after_yielded (Iterator.next p.inner)
      rw [Projection.next_of_asks asks, Reply.inside, after]
      exact ⟨fun _ => below, ih h.2⟩
    | false =>
      rw [show Iterator.next p = p.ownReply from Projection.nextBy_of_not_asks asks _]
      exact h
  | timeline t ih =>
    rw [next_timeline, Reply.inside, inStep_timeline, t.phase_next]
    rcases t.inner_next with same | asked
    · rw [same]
      exact h
    · rw [asked]
      exact ⟨fun opened => (isOpen_next t.inner).trans (h.1 opened), ih h.2⟩
  | probe p ih =>
    obtain ⟨inner, nexts, after, asked⟩ := p.after_next
    change InStep (.probe (Iterator.next p).after)
    rw [after]
    rcases asked with rfl | rfl
    · exact h
    · exact ih h

theorem inStep_close (o : Pipeline Source) : o.close.InStep := by
  induction o with
  | source s => trivial
  | projection p ih => exact ⟨nofun, ih⟩
  | timeline t ih => exact ⟨nofun, ih⟩
  | probe p ih => exact ih

theorem inStep_perform {o : Pipeline Source} (h : o.InStep) (c : Command) :
    (o.perform c).after.InStep := by
  cases c with
  | start => exact inStep_start h
  | next => exact inStep_next h
  | close => exact o.inStep_close
  | previous =>
    cases o with
    | timeline t =>
      change InStep (.timeline t.previous.after)
      rw [inStep_timeline, t.phase_previous, t.inner_previous]
      exact h
    | _ => exact h

/-! ## What is refused -/

theorem next_of_root_not_isOpen {o : Pipeline Source} (root : ∀ p, o ≠ .probe p)
    (notOpen : o.phase.isOpen = false) :
    o.next = ⟨.error (.invalidState o.operator .next o.phase), o⟩ := by
  cases o with
  | source s =>
    rw [next_source, show Iterator.next s = s.next from rfl, Source.next_of_not_isOpen notOpen]
    rfl
  | projection p =>
    rw [next_projection]
    exact congrArg (Reply.inside _) (Phase.gate_of_not_isOpen notOpen _ p _)
  | timeline t =>
    rw [next_timeline, Timeline.next_of_refused (Phase.producing_of_not_isOpen notOpen _)]
    rfl
  | probe p => exact absurd rfl (root p)

theorem next_of_not_isOpen {o : Pipeline Source} (h : o.Unprobed) (notOpen : o.phase.isOpen = false) :
    o.next = ⟨.error (.invalidState o.operator .next o.phase), o⟩ := by
  refine next_of_root_not_isOpen ?_ notOpen
  rintro p rfl
  exact h

/-- What the root lets through is refused by no operator below. -/
theorem not_refused_next {o : Pipeline Source} (h : o.InStep) (opened : o.phase.isOpen) :
    ¬Refused o.next.result := by
  induction o with
  | source s => exact Source.not_refused_next opened
  | projection p ih =>
    rw [next_projection]
    cases asks : p.asks with
    | true =>
      rw [Projection.next_of_asks asks]
      exact p.not_refused_yielded (ih h.2 (h.1 opened))
    | false =>
      rw [Projection.next_of_not_asks asks]
      exact p.not_refused_ownReply opened
  | timeline t ih =>
    rw [next_timeline]
    cases asks : t.asks with
    | true =>
      rw [Timeline.next_of_asks asks, Reply.inside, t.result_yielded]
      exact ih h.2 (h.1 opened)
    | false =>
      rw [Timeline.next_of_not_asks asks]
      exact t.not_refused_ownReply opened
  | probe p ih =>
    rw [next_probe]
    rcases p.next_cases with ⟨count, step⟩ | ⟨count, step⟩
    · rw [step]
      simp [Reply.inside]
    · rw [step]
      exact ih h opened

theorem isOpen_of_mem_asked {o u : Pipeline Source} (probes : o.Unprobed) (h : o.InStep)
    (hu : u ∈ o.asked) : u.phase.isOpen ∧ u.InStep := by
  induction o with
  | source s => cases hu
  | projection p ih =>
    rw [asked_projection] at hu
    split at hu
    · rename_i asks
      rcases List.mem_cons.1 hu with rfl | hu
      · exact ⟨h.1 (Projection.isOpen_of_asks asks), h.2⟩
      · exact ih probes h.2 hu
    · cases hu
  | timeline t ih =>
    rw [asked_timeline] at hu
    split at hu
    · rename_i asks
      rcases List.mem_cons.1 hu with rfl | hu
      · exact ⟨h.1 (Timeline.isOpen_of_asks asks), h.2⟩
      · exact ih probes h.2 hu
    · cases hu
  | probe p _ => exact False.elim probes

/-- No operator below the root refuses a call that the root passes on. -/
theorem not_refused_of_mem_asked {o u : Pipeline Source} (probes : o.Unprobed) (h : o.InStep)
    (hu : u ∈ o.asked) : ¬Refused u.next.result := by
  obtain ⟨opened, inStep⟩ := isOpen_of_mem_asked probes h hu
  exact not_refused_next inStep opened

/-! ## The end of a run -/

theorem next_next_of_none {o : Pipeline Source} (h : o.Unprobed) (ended : o.next.result = .ok none) :
    o.next.after.next = ⟨.ok none, o.next.after⟩ := by
  induction o with
  | source s => exact congrArg (Reply.inside Pipeline.source) (Source.next_next_of_none ended)
  | projection p _ =>
    exact congrArg (Reply.inside Pipeline.projection) (Projection.next_next_of_none ended)
  | timeline t ih =>
    exact congrArg (Reply.inside Pipeline.timeline) (Timeline.next_next_of_none (ih h) ended)
  | probe p _ => exact False.elim h

end Pipeline
end PullAlgebra
