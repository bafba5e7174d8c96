import PullAlgebra.Proofs.Pipeline.Protocol

/-!
# PullAlgebra.Proofs.Pipeline.Transparency

A timeline that is never stepped back. Its cursor stands at the end of its log, so that each call of
`next` goes through to the pipeline inside, and the log only grows. Seen from outside it is the
pipeline inside, up to the name under which it refuses a call in a wrong phase.

* `Mirrors`: how a timeline stands to what it wraps, as long as it is not stepped back.
* `mirrors_perform`: each call but `previous` is answered alike and keeps it so.
* `answers_logged`: the answers to any calls without a step back, and whole runs.
-/

namespace PullAlgebra

/-- The error under the name of another operator, if it reports a call in a wrong phase. -/
def QueryError.attributedTo (operator : String) : QueryError → QueryError
  | .invalidState _ call phase => .invalidState operator call phase
  | e => e

theorem mapError_attributedTo {α : Type} {answer : Except QueryError α} (h : ¬Refused answer)
    (operator : String) : answer.mapError (QueryError.attributedTo operator) = answer := by
  match answer with
  | .ok _ => rfl
  | .error e =>
    cases e with
    | invalidState other call phase => exact absurd ⟨other, call, phase, rfl⟩ h
    | _ => rfl

theorem Timeline.no_row_ahead_of_yielded {σ α : Type} {t : Timeline σ α}
    (h : t.log[t.ahead]? = none) (reply : Reply σ (Option α)) :
    (t.yielded reply).after.log[(t.yielded reply).after.ahead]? = none := by
  match reply with
  | ⟨.ok (some a), _⟩ => simp [yielded_item, ahead]
  | ⟨.ok none, _⟩ => exact h
  | ⟨.error _, _⟩ => exact h

namespace Pipeline

/-- The timeline stands at the end of its log, and lets calls through just when what it wraps
does. -/
structure Mirrors (t : Timeline (Pipeline Source) Tuple) (u : Pipeline Source) : Prop where
  inner : t.inner = u
  atEnd : t.log[t.ahead]? = none
  phase : t.phase = .running ∧ u.phase.isOpen ∨ t.phase = u.phase ∧ u.phase.isOpen = false

variable {t : Timeline (Pipeline Source) Tuple} {u : Pipeline Source}

theorem mirrors_next_of_isOpen (h : Mirrors t u) (inStep : u.InStep) (opened : u.phase.isOpen) :
    (Iterator.next t).result = u.next.result ∧ Mirrors (Iterator.next t).after u.next.after := by
  obtain ⟨rfl, atEnd, phase⟩ := h
  have running : t.phase = .running := by
    rcases phase with ⟨running, -⟩ | ⟨-, notOpen⟩
    · exact running
    · rw [opened] at notOpen
      cases notOpen
  have asks : t.asks := by simp [Timeline.asks, running, atEnd, Phase.isOpen]
  rw [Timeline.next_of_asks asks]
  refine ⟨t.result_yielded _, t.inner_yielded _, Timeline.no_row_ahead_of_yielded atEnd _, ?_⟩
  exact .inl ⟨(t.phase_yielded _).trans running, (isOpen_next _).trans opened⟩

theorem mirrors_next_of_not_isOpen (h : Mirrors t u) (probes : u.Unprobed)
    (notOpen : u.phase.isOpen = false) :
    (Iterator.next t).result = u.next.result.mapError (QueryError.attributedTo "Timeline") ∧
      Mirrors (Iterator.next t).after u.next.after := by
  have phase : t.phase = u.phase := by
    rcases h.phase with ⟨-, opened⟩ | ⟨same, -⟩
    · rw [notOpen] at opened
      cases opened
    · exact same
  have producing := Phase.producing_of_not_isOpen (phase ▸ notOpen) "Timeline"
  rw [Timeline.next_of_refused producing, next_of_not_isOpen probes notOpen, phase]
  exact ⟨rfl, h⟩

theorem mirrors_of_start {opened : Pipeline Source} (started : t.inner.start = ⟨.ok (), opened⟩) :
    Iterator.start t = ⟨.ok (), ⟨opened, #[], none, .running⟩⟩ ∧
      Mirrors ⟨opened, #[], none, .running⟩ opened := by
  refine ⟨Timeline.start_of_ok started, rfl, rfl, .inl ⟨rfl, ?_⟩⟩
  rw [phase_of_start_ok started]
  rfl

theorem mirrors_close (h : Mirrors t u) : Mirrors (Iterator.close t) u.close :=
  ⟨congrArg close h.inner, h.atEnd, .inr ⟨u.phase_close.symm, by rw [phase_close]; rfl⟩⟩

variable {o : Pipeline Source}

/-- A start needs no more of the timeline than what it wraps. -/
theorem mirrors_perform_start (fresh : Fresh o) {history : List Command}
    (inner : t.inner = o.after history) :
    ((timeline t).perform .start).result =
        ((o.after history).perform .start).result.mapError (QueryError.attributedTo "Timeline") ∧
      ∃ t', ((timeline t).perform .start).after = timeline t' ∧
        Mirrors t' (o.after (history ++ [.start])) := by
  obtain ⟨opened, started⟩ := fresh.exists_start_after
  have below : (o.after history).perform .start = ⟨.ok none, opened⟩ := by
    rw [perform, started]
    rfl
  obtain ⟨step, kept⟩ := mirrors_of_start (t := t) ((congrArg start inner).trans (started history))
  have after : (o.after history).after [.start] = opened := congrArg Reply.after below
  rw [after_append, after, perform, start_timeline, step, below]
  exact ⟨rfl, _, rfl, kept⟩

theorem mirrors_perform (fresh : Fresh o) {history : List Command}
    (h : Mirrors t (o.after history)) {c : Command} (forward : c ≠ .previous) :
    ((timeline t).perform c).result =
        ((o.after history).perform c).result.mapError (QueryError.attributedTo "Timeline") ∧
      ∃ t', ((timeline t).perform c).after = timeline t' ∧ Mirrors t' (o.after (history ++ [c])) := by
  cases c with
  | start => exact mirrors_perform_start fresh h.inner
  | next =>
    rw [after_append]
    change (Iterator.next t).result = _ ∧ _
    cases opened : (o.after history).phase.isOpen with
    | true =>
      obtain ⟨same, kept⟩ := mirrors_next_of_isOpen h (fresh.inStep_after history) opened
      have passes := not_refused_next (fresh.inStep_after history) opened
      exact ⟨same.trans (mapError_attributedTo passes _).symm, _, rfl, kept⟩
    | false =>
      obtain ⟨same, kept⟩ :=
        mirrors_next_of_not_isOpen h (unprobed_after fresh.unprobed history) opened
      exact ⟨same, _, rfl, kept⟩
  | close =>
    rw [after_append]
    exact ⟨rfl, _, rfl, mirrors_close h⟩
  | previous => exact absurd rfl forward

theorem answers_of_mirrors (fresh : Fresh o) {history : List Command}
    (h : Mirrors t (o.after history)) {calls : List Command} (forward : .previous ∉ calls) :
    (timeline t).answers calls =
      ((o.after history).answers calls).map (Except.mapError (QueryError.attributedTo "Timeline")) := by
  induction calls generalizing t history with
  | nil => rfl
  | cons c calls ih =>
    obtain ⟨first, others⟩ := not_or.1 (mt List.mem_cons.2 forward)
    obtain ⟨same, t', after, kept⟩ := mirrors_perform fresh h (Ne.symm first)
    have rest := ih kept others
    rw [after_append] at rest
    rw [answers, answers, List.map_cons, same, after, rest]
    rfl

theorem collect_logged (fresh : Fresh o) (history : List Command) :
    (collect (o.after history).logged).result = (collect (o.after history)).result := by
  obtain ⟨opened, started⟩ := fresh.exists_start_after
  obtain ⟨step, kept⟩ := mirrors_of_start (t := .ofInner (o.after history)) (started history)
  have inStep : opened.InStep := by
    have := inStep_start (fresh.inStep_after history)
    rwa [started] at this
  have running : opened.phase.isOpen := by
    rw [phase_of_start_ok (started history)]
    rfl
  refine collect_of_alike (R := fun x u =>
    ∃ t, x = timeline t ∧ Mirrors t u ∧ u.InStep ∧ u.phase.isOpen) ?_
    (congrArg (Reply.inside timeline) step) (started history) ⟨_, rfl, kept, inStep, running⟩
  rintro _ u ⟨t, rfl, mirrors, inStep, opened⟩
  obtain ⟨same, kept⟩ := mirrors_next_of_isOpen mirrors inStep opened
  exact ⟨same, _, rfl, kept, inStep_next inStep, (isOpen_next u).trans opened⟩

end Pipeline

open Pipeline

/-- A timeline answers every call but `previous` as what it wraps would, up to the name under which
a call in a wrong phase is refused: from the first call on if neither was called before, and from
a start on, or over a whole run, whatever calls came before. -/
theorem answers_logged {o : Pipeline Source} (h : Fresh o) :
    (∀ calls, .previous ∉ calls → o.logged.answers calls =
      (o.answers calls).map (Except.mapError (QueryError.attributedTo "Timeline"))) ∧
      (∀ history calls, .previous ∉ calls → (o.after history).logged.answers (.start :: calls) =
        ((o.after history).answers (.start :: calls)).map
          (Except.mapError (QueryError.attributedTo "Timeline"))) ∧
      ∀ history, (collect (o.after history).logged).result = (collect (o.after history)).result := by
  refine ⟨?_, ?_, collect_logged h⟩
  · intro calls forward
    have unopened : o.phase.isOpen = false := by
      rw [h.phase_eq]
      rfl
    have mirrors : Mirrors (.ofInner o) (o.after []) :=
      ⟨rfl, rfl, .inr ⟨h.phase_eq.symm, unopened⟩⟩
    exact answers_of_mirrors h mirrors forward
  · intro history calls forward
    obtain ⟨same, t, after, kept⟩ :=
      mirrors_perform_start (t := .ofInner (o.after history)) h rfl
    have rest := answers_of_mirrors h kept forward
    rw [after_append] at rest
    rw [logged, answers, answers, List.map_cons, same, after, rest]
    rfl

/-- A theta join that cannot divide by the first row: the error comes through, and the row after
it. -/
theorem failed_pair_seen_through_timeline :
    ∃ o : Pipeline Source, Fresh o ∧
      o.logged.answers [.next, .start, .next, .next, .next, .close, .next] =
        (o.answers [.next, .start, .next, .next, .next, .close, .next]).map
          (Except.mapError (QueryError.attributedTo "Timeline")) ∧
      (o.logged.answers [.next, .start, .next, .next, .next, .close, .next]).map
          (Except.map (Option.map Tuple.values)) =
        [.error (.invalidState "Timeline" .next .unopened), .ok none,
          .error (.noArithmetic .divide (.integer 6) (.integer 0)),
          .ok (some [.integer 2, .integer 3]), .ok none, .ok none,
          .error (.invalidState "Timeline" .next .closed)] := by
  let r := Relation.ofColumn ⟨"n", .integer⟩ [.integer 0, .integer 2] (by decide)
  let s := Relation.ofColumn ⟨"m", .integer⟩ [.integer 3] (by decide)
  let schema : Schema := .ofDistinct [⟨"n", .integer⟩, ⟨"m", .integer⟩] (by decide)
  have names : schema.names = ["n", "m"] := by
    rw [Schema.names, Schema.columns_ofDistinct]
    rfl
  have n : schema.indexOf? "n" = some 0 := by simp [Schema.indexOf?_eq_some_iff, names]
  have m : schema.indexOf? "m" = some 1 := by simp [Schema.indexOf?_eq_some_iff, names]
  let quotient (n : Expression) : Expression :=
    .binary (.arithmetic .divide) (.literal (.integer 6)) n
  let predicate (n m : Expression) : Expression := .binary (.comparison .eq) (quotient n) m
  have bound : (predicate (.column "n") (.column "m")).bind schema =
      .ok (predicate (.bound 0) (.bound 1)) := by
    simp only [predicate, quotient, Expression.bind, n, m]
    rfl
  have built : (Join.theta (predicate (.column "n") (.column "m"))).build r s = .ok _ :=
    congrArg (Except.map Source.theta)
      (ThetaJoin.ofRelations_of_bind (Relation.join_ofColumn (by decide)) bound)
  have fresh := Fresh.join built
  obtain ⟨same, -, -⟩ := answers_logged fresh
  refine ⟨_, fresh, same _ (by decide), ?_⟩
  decide +kernel

end PullAlgebra
