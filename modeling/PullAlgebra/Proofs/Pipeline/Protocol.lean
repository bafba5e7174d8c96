import PullAlgebra.Proofs.Pipeline.Phases
import PullAlgebra.Proofs.Pipeline.Restart
import PullAlgebra.Proofs.Relation.OneColumn

/-!
# PullAlgebra.Proofs.Pipeline.Protocol

The pull protocol as the caller of the root sees it. The caller knows which calls it has made and
how they were answered. Whether `next` is refused, and with which phase, follows from this alone.

* `Opened`, `ClosedSince`: what the caller knows of a history.
* `isOpen_after_iff`, `closed_after_iff`: it is what the root keeps as its phase.
* `ObeysProtocol`: the promises of the protocol after a history.
* `obeysProtocol_of_fresh`: what is built keeps them after every history.
-/

namespace PullAlgebra

theorem concat_eq_append_cons_iff {α : Type} {as bs cs : List α} {a b : α} :
    as ++ [a] = bs ++ b :: cs ↔
      cs = [] ∧ as = bs ∧ a = b ∨ ∃ ds, cs = ds ++ [a] ∧ as = bs ++ b :: ds := by
  constructor
  · intro split
    rcases List.eq_nil_or_concat cs with rfl | ⟨ds, d, rfl⟩
    · obtain ⟨rfl, last⟩ := List.append_inj' split rfl
      cases last
      exact .inl ⟨rfl, rfl, rfl⟩
    · rw [List.concat_eq_append, ← List.cons_append, ← List.append_assoc] at split
      obtain ⟨rfl, last⟩ := List.append_inj' split rfl
      cases last
      exact .inr ⟨ds, List.concat_eq_append, rfl⟩
  · rintro (⟨rfl, rfl, rfl⟩ | ⟨ds, rfl, rfl⟩)
    · rfl
    · rw [← List.cons_append, List.append_assoc]

namespace Pipeline

/-! ## What the caller knows -/

section Histories

variable {σ : Type} [Iterator σ Tuple] {o : Pipeline σ} {history : List Command} {c : Command}

/-- A start has succeeded, and there was no close after it. -/
def Opened (o : Pipeline σ) (history : List Command) : Prop :=
  ∃ earlier since, history = earlier ++ .start :: since ∧
    (o.after earlier).start.result = .ok () ∧ .close ∉ since

/-- There was a close, and no start has succeeded after it. -/
def ClosedSince (o : Pipeline σ) (history : List Command) : Prop :=
  ∃ earlier since, history = earlier ++ .close :: since ∧
    ∀ before later, since = before ++ .start :: later →
      (o.after (earlier ++ .close :: before)).start.result ≠ .ok ()

theorem not_opened_nil (o : Pipeline σ) : ¬o.Opened [] := by
  rintro ⟨earlier, since, split, -⟩
  simp at split

theorem not_closedSince_nil (o : Pipeline σ) : ¬o.ClosedSince [] := by
  rintro ⟨earlier, since, split, -⟩
  simp at split

theorem opened_concat :
    o.Opened (history ++ [c]) ↔
      c = .start ∧ (o.after history).start.result = .ok () ∨ c ≠ .close ∧ o.Opened history := by
  constructor
  · rintro ⟨earlier, since, split, started, kept⟩
    rcases concat_eq_append_cons_iff.1 split with ⟨rfl, rfl, rfl⟩ | ⟨since, rfl, rfl⟩
    · exact .inl ⟨rfl, started⟩
    · simp at kept
      exact .inr ⟨fun e => kept.2 e.symm, earlier, since, rfl, started, kept.1⟩
  · rintro (⟨rfl, started⟩ | ⟨other, earlier, since, rfl, started, kept⟩)
    · exact ⟨history, [], rfl, started, List.not_mem_nil⟩
    · refine ⟨earlier, since ++ [c], by simp, started, ?_⟩
      simpa using ⟨kept, Ne.symm other⟩

theorem closedSince_concat :
    o.ClosedSince (history ++ [c]) ↔
      c = .close ∨
        ¬(c = .start ∧ (o.after history).start.result = .ok ()) ∧ o.ClosedSince history := by
  constructor
  · rintro ⟨earlier, since, split, kept⟩
    rcases concat_eq_append_cons_iff.1 split with ⟨rfl, rfl, rfl⟩ | ⟨since, rfl, rfl⟩
    · exact .inl rfl
    · refine .inr ⟨?_, earlier, since, rfl, ?_⟩
      · rintro ⟨rfl, started⟩
        exact kept since [] rfl started
      · rintro before later rfl
        exact kept before (later ++ [c]) (by simp)
  · rintro (rfl | ⟨failed, earlier, since, rfl, kept⟩)
    · exact ⟨history, [], rfl, fun before later e => by simp at e⟩
    · refine ⟨earlier, since ++ [c], by simp, ?_⟩
      intro before later split
      rcases concat_eq_append_cons_iff.1 split with ⟨rfl, rfl, rfl⟩ | ⟨later, rfl, rfl⟩
      · exact fun started => failed ⟨rfl, started⟩
      · exact kept before later rfl

end Histories

/-! ## The phase of the root is what the caller knows -/

variable {o : Pipeline Source}

theorem phase_reset (o : Pipeline Source) : o.reset.phase = .unopened := by
  induction o with
  | source s => cases s <;> rfl
  | projection p _ => rfl
  | timeline t _ => rfl
  | probe p ih => exact ih

theorem inStep_reset (o : Pipeline Source) : o.reset.InStep := by
  induction o with
  | source s => trivial
  | projection p ih => exact ⟨nofun, ih⟩
  | timeline t ih => exact ⟨nofun, ih⟩
  | probe p ih => exact ih

theorem phase_previous (o : Pipeline Source) : (o.perform .previous).after.phase = o.phase := by
  cases o with
  | timeline t => exact t.phase_previous
  | _ => rfl

theorem isOpen_perform_iff (o : Pipeline Source) (c : Command) :
    (o.perform c).after.phase.isOpen ↔
      c = .start ∧ o.start.result = .ok () ∨ c ≠ .close ∧ o.phase.isOpen := by
  cases c with
  | start =>
    change o.start.after.phase.isOpen ↔ _
    rcases o.phase_start with ⟨started, after⟩ | ⟨⟨e, failed⟩, after⟩
    · simp [started, after, Phase.isOpen]
    · simp [failed, after]
  | next =>
    change o.next.after.phase.isOpen ↔ _
    simp [o.isOpen_next]
  | close =>
    change o.close.phase.isOpen ↔ _
    simp [o.phase_close, Phase.isOpen]
  | previous => simp [o.phase_previous]

theorem closed_perform_iff (o : Pipeline Source) (c : Command) :
    (o.perform c).after.phase = .closed ↔
      c = .close ∨ ¬(c = .start ∧ o.start.result = .ok ()) ∧ o.phase = .closed := by
  cases c with
  | start =>
    change o.start.after.phase = _ ↔ _
    rcases o.phase_start with ⟨started, after⟩ | ⟨⟨e, failed⟩, after⟩
    · simp [started, after]
    · simp [failed, after]
  | next =>
    change o.next.after.phase = _ ↔ _
    rcases o.phase_next with same | ⟨running, exhausted⟩
    · simp [same]
    · simp [running, exhausted]
  | close =>
    change o.close.phase = _ ↔ _
    simp [o.phase_close]
  | previous => simp [o.phase_previous]

theorem isOpen_after_iff (h : o.phase = .unopened) (history : List Command) :
    (o.after history).phase.isOpen ↔ o.Opened history := by
  induction history using List.reverseRecOn with
  | nil => simp [after, h, Phase.isOpen, not_opened_nil]
  | append_singleton history c ih =>
    rw [opened_concat, ← ih, after_append]
    exact isOpen_perform_iff _ c

theorem closed_after_iff (h : o.phase = .unopened) (history : List Command) :
    (o.after history).phase = .closed ↔ o.ClosedSince history := by
  induction history using List.reverseRecOn with
  | nil => simp [after, h, not_closedSince_nil]
  | append_singleton history c ih =>
    rw [closedSince_concat, ← ih, after_append]
    exact closed_perform_iff _ c

theorem previous_steps_or_stays (o : Pipeline Source) :
    (∃ t, (o.perform .previous).result = .ok (some t)) ∨ (o.perform .previous).after = o := by
  cases o with
  | timeline t =>
    rcases t.previous_cases with ⟨p, a, -, step⟩ | ⟨e, step⟩
    · exact .inl ⟨a, by rw [perform, step]; rfl⟩
    · exact .inr (by rw [perform, step])
  | _ => exact .inr rfl

/-- At the end of a run nothing moves until a step back succeeds or there is a start or a close. -/
theorem after_of_ended (ended : o.next = ⟨.ok none, o⟩) {more : List Command}
    (waiting : ∀ c ∈ more, c = .next ∨ c = .previous) :
    o.after more = o ∨ ∃ before later t, more = before ++ .previous :: later ∧
      ((o.after before).perform .previous).result = .ok (some t) := by
  induction more with
  | nil => exact .inl rfl
  | cons c more ih =>
    obtain ⟨first, rest⟩ := List.forall_mem_cons.1 waiting
    by_cases stays : (o.perform c).after = o
    · rcases ih rest with same | ⟨before, later, t, rfl, back⟩
      · exact .inl (by rw [after_cons, stays, same])
      · exact .inr ⟨c :: before, later, t, rfl, by rw [after_cons, stays, back]⟩
    · rcases first with rfl | rfl
      · exact absurd (congrArg Reply.after ended) stays
      · rcases o.previous_steps_or_stays with ⟨t, back⟩ | same
        · exact .inr ⟨[], more, t, rfl, back⟩
        · exact absurd same stays

end Pipeline

/-! ## The protocol -/

/-- What the protocol promises to a caller that has made the calls of a history. -/
structure ObeysProtocol (o : Pipeline Source) (history : List Command) : Prop where
  starts : (o.after history).start.result = .ok ()
  refuses_iff : Refused (o.after history).next.result ↔ ¬o.Opened history
  refuses_closed : ¬o.Opened history → o.ClosedSince history →
    (o.after history).next.result = .error (.invalidState o.operator .next .closed)
  refuses_unopened : ¬o.Opened history → ¬o.ClosedSince history →
    (o.after history).next.result = .error (.invalidState o.operator .next .unopened)
  -- the operators below the root that the call reaches do not refuse it
  reaches_open : ∀ u ∈ (o.after history).asked, ¬Refused u.next.result
  stays_ended : (o.after history).next.result = .ok none →
    ∀ more, (∀ c ∈ more, c = .next ∨ c = .previous) →
      (o.after (history ++ .next :: more)).next.result = .ok none ∨
        ∃ before later t, more = before ++ .previous :: later ∧
          ((o.after (history ++ .next :: before)).perform .previous).result = .ok (some t)
  closes : ∀ phase ∈ (o.after history).close.phases, phase = .closed
  closes_once : (o.after history).close.close = (o.after history).close

open Pipeline

theorem Fresh.phase_eq {o : Pipeline Source} (h : Fresh o) : o.phase = .unopened := by
  rw [← h.reset_eq, phase_reset]

theorem Fresh.inStep_after {o : Pipeline Source} (h : Fresh o) (history : List Command) :
    (o.after history).InStep := by
  refine after_induction (P := InStep) (fun _ c h => inStep_perform h c) ?_ history
  rw [← h.reset_eq]
  exact o.inStep_reset

/-- What is built obeys the protocol after every history of calls. -/
theorem obeysProtocol_of_fresh {o : Pipeline Source} (h : Fresh o) (history : List Command) :
    ObeysProtocol o history := by
  have opened := isOpen_after_iff h.phase_eq history
  have closed := closed_after_iff h.phase_eq history
  have unprobed := unprobed_after h.unprobed history
  have inStep := h.inStep_after history
  have refused : ¬o.Opened history → (o.after history).next.result =
      .error (.invalidState o.operator .next (o.after history).phase) := by
    intro never
    rw [next_of_not_isOpen unprobed (by simpa [← opened] using never), operator_after]
  constructor
  case starts =>
    obtain ⟨state, started⟩ := h.exists_start_after
    exact congrArg Reply.result (started history)
  case refuses_iff =>
    constructor
    · intro refusal was
      exact not_refused_next inStep (opened.2 was) refusal
    · intro never
      exact ⟨_, _, _, refused never⟩
  case refuses_closed =>
    intro never since
    rw [refused never, closed.2 since]
  case refuses_unopened =>
    intro never since
    have phase : (o.after history).phase = .unopened := by
      rw [← opened] at never
      rw [← closed] at since
      revert never since
      cases (o.after history).phase <;> simp [Phase.isOpen]
    rw [refused never, phase]
  case reaches_open =>
    intro u hu
    exact not_refused_of_mem_asked unprobed inStep hu
  case stays_ended =>
    intro ended more waiting
    have again := next_next_of_none unprobed ended
    have step : ∀ more, o.after (history ++ .next :: more) = (o.after history).next.after.after more := by
      intro more
      rw [after_append, after_cons]
      rfl
    rcases after_of_ended again waiting with same | ⟨before, later, t, rfl, back⟩
    · rw [step, same, again]
      exact .inl rfl
    · rw [← step] at back
      exact .inr ⟨before, later, t, rfl, back⟩
  case closes => exact phases_close _
  case closes_once => exact close_close unprobed

/-- A timeline over a scan of one row, read to its end and closed. -/
theorem closed_timeline_refuses_next :
    ∃ r, Fresh (Pipeline.source (Source.ofRelation r)).logged ∧
      ObeysProtocol (Pipeline.source (Source.ofRelation r)).logged [.start, .next, .next, .close] ∧
      ((Pipeline.source (Source.ofRelation r)).logged.after [.start, .next, .next, .close]).next.result =
        .error (.invalidState "Timeline" .next .closed) := by
  let r := Relation.ofColumn ⟨"n", .integer⟩ [.integer 1] (by decide)
  have fresh : Fresh (Pipeline.source (Source.ofRelation r)).logged := .logged (.scan r)
  have obeys := obeysProtocol_of_fresh fresh [.start, .next, .next, .close]
  refine ⟨r, fresh, obeys, obeys.refuses_closed ?_ ?_⟩
  · rw [← isOpen_after_iff fresh.phase_eq]
    decide
  · rw [← closed_after_iff fresh.phase_eq]
    rfl

end PullAlgebra
