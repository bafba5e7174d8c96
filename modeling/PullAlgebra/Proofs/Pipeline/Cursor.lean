import PullAlgebra.Proofs.Pipeline.Asking
import PullAlgebra.Proofs.Relation.OneColumn
import PullAlgebra.Source.Scan

/-!
# PullAlgebra.Proofs.Pipeline.Cursor

A timeline as a cursor over what its inner iterator yields. The inner iterator is given a recorder,
which keeps the answer to every call of `next` and changes nothing else. After any calls of `next`
and `previous` the log is the list of the recorded items, and from the cursor and this list alone it
is known what the next call answers and whether it reaches the inner iterator.

* `Recorded`: an iterator with its recorder.
* `Timeline.IsCursor`: what a timeline over a recorded iterator shows of it and does next.
* `erased_moved`: without the recorder the timeline goes through the same states.
* `Synced`: the invariant; `synced_moved` that every run preserves it.
* `isCursor_of_start`: what holds from a successful start on.
-/

namespace PullAlgebra

/-- An iterator and the answers to the calls of its `next`, in their order. -/
structure Recorded (σ α : Type) where
  inner : σ
  answers : List (Except QueryError (Option α))

namespace Recorded

variable {σ α : Type}

def yielded? : Except QueryError (Option α) → Option α
  | .ok item => item
  | .error _ => none

/-- The items among the answers. -/
def items (s : Recorded σ α) : List α := s.answers.filterMap yielded?

def noted (s : Recorded σ α) (inner : σ) (answer : Except QueryError (Option α)) : Recorded σ α :=
  ⟨inner, s.answers ++ [answer]⟩

variable [Iterator σ α]

instance : Iterator (Recorded σ α) α where
  start s := (Iterator.start s.inner).inside fun inner => ⟨inner, []⟩
  next s :=
    let reply := Iterator.next s.inner
    ⟨reply.result, s.noted reply.after reply.result⟩
  close s := ⟨Iterator.close s.inner, s.answers⟩

omit [Iterator σ α] in
theorem items_noted (s : Recorded σ α) (inner : σ) (answer : Except QueryError (Option α)) :
    (s.noted inner answer).items = s.items ++ (yielded? answer).toList := by
  simp only [items, noted, List.filterMap_append, List.filterMap_cons, List.filterMap_nil]
  cases yielded? answer <;> rfl

theorem next_eq {s : Recorded σ α} {inner : σ} {answer : Except QueryError (Option α)}
    (h : Iterator.next s.inner = ⟨answer, inner⟩) :
    Iterator.next s = ⟨answer, s.noted inner answer⟩ := by
  change (⟨(Iterator.next s.inner).result, _⟩ : Reply (Recorded σ α) (Option α)) = _
  rw [h]

end Recorded

namespace Timeline

/-- A step of the cursor. -/
inductive Move where
  | next
  | previous
  deriving DecidableEq, Repr

variable {σ α : Type}

section Moves

variable [Iterator σ α]

def move (t : Timeline σ α) : Move → Reply (Timeline σ α) (Option α)
  | .next => Iterator.next t
  | .previous => ⟨t.previous.result.map some, t.previous.after⟩

/-- The timeline after some moves. -/
def moved (t : Timeline σ α) (moves : List Move) : Timeline σ α :=
  moves.foldl (fun t m => (t.move m).after) t

/-- What the moves answer. -/
def answers (t : Timeline σ α) : List Move → List (Except QueryError (Option α))
  | [] => []
  | m :: moves => (t.move m).result :: (t.move m).after.answers moves

end Moves

/-! ## The recorder -/

def recorded (t : Timeline σ α) : Timeline (Recorded σ α) α :=
  ⟨⟨t.inner, []⟩, t.log, t.cursor, t.phase⟩

def erased (t : Timeline (Recorded σ α) α) : Timeline σ α :=
  ⟨t.inner.inner, t.log, t.cursor, t.phase⟩

variable [Iterator σ α]

theorem erased_next (t : Timeline (Recorded σ α) α) :
    (Iterator.next t).inside erased = Iterator.next t.erased :=
  next_mapInner (f := Recorded.inner) fun _ => rfl

omit [Iterator σ α] in
theorem erased_previous (t : Timeline (Recorded σ α) α) :
    t.previous.inside erased = t.erased.previous := previous_mapInner Recorded.inner t

theorem erased_move (t : Timeline (Recorded σ α) α) (m : Move) :
    (t.move m).inside erased = t.erased.move m := by
  cases m with
  | next => exact erased_next t
  | previous =>
    have back := erased_previous t
    simp only [move, ← back]
    rfl

/-- Without the recorder the timeline goes through the same states and answers the same. -/
theorem erased_moved (t : Timeline (Recorded σ α) α) (moves : List Move) :
    (t.moved moves).erased = t.erased.moved moves ∧ t.answers moves = t.erased.answers moves := by
  induction moves generalizing t with
  | nil => exact ⟨rfl, rfl⟩
  | cons m moves ih =>
    obtain ⟨state, answers⟩ := ih (t.move m).after
    have step := erased_move t m
    constructor
    · rw [moved, List.foldl_cons, ← moved, state, moved, moved, List.foldl_cons, ← step]
      rfl
    · rw [Timeline.answers, answers, Timeline.answers, ← step]
      rfl

/-! ## The invariant -/

/-- The log is what was recorded, and the cursor is in the log as soon as there is something. -/
structure Synced (t : Timeline (Recorded σ α) α) : Prop where
  running : t.phase = .running
  logged : t.log.toList = t.inner.items
  unset : t.cursor = none ↔ t.log.size = 0
  inLog : ∀ p, t.cursor = some p → p < t.log.size

omit [Iterator σ α] in
theorem Synced.producing {t : Timeline (Recorded σ α) α} (h : t.Synced) :
    t.phase.producing "Timeline" = .ok true := by rw [h.running]; rfl

/-- No item of the log comes after the cursor. -/
def AtEnd (t : Timeline σ α) : Prop := ∀ p, t.cursor = some p → p + 1 = t.log.size

omit [Iterator σ α] in
theorem Synced.atEnd_or_lt {t : Timeline (Recorded σ α) α} (h : t.Synced) :
    t.AtEnd ∨ ∃ p, t.cursor = some p ∧ p + 1 < t.log.size := by
  cases hc : t.cursor with
  | none =>
    refine .inl ?_
    intro p e
    rw [hc] at e
    cases e
  | some p =>
    rcases Nat.lt_or_eq_of_le (h.inLog p hc) with lt | eq
    · exact .inr ⟨p, rfl, lt⟩
    · refine .inl ?_
      intro q e
      rw [hc] at e
      cases e
      exact eq

omit [Iterator σ α] in
theorem Synced.no_row_ahead {t : Timeline (Recorded σ α) α} (h : t.Synced) (last : t.AtEnd) :
    t.log[t.ahead]? = none := by
  refine Array.getElem?_eq_none ?_
  unfold ahead
  split
  · rename_i hc
    exact Nat.le_of_eq (h.unset.1 hc)
  · rename_i p hc
    exact Nat.le_of_eq (last p hc).symm

omit [Iterator σ α] in
theorem Synced.exists_item {t : Timeline (Recorded σ α) α} (h : t.Synced) {p : Nat}
    (lt : p < t.log.size) : ∃ a, t.log[p]? = some a ∧ t.inner.items[p]? = some a := by
  refine ⟨t.log[p], Array.getElem?_eq_getElem lt, ?_⟩
  rw [← h.logged, Array.getElem?_toList, Array.getElem?_eq_getElem lt]

omit [Iterator σ α] in
/-- Another place of the log for the cursor changes nothing else. -/
theorem Synced.set_cursor {t : Timeline (Recorded σ α) α} (h : t.Synced) {p : Nat}
    (lt : p < t.log.size) : Synced { t with cursor := some p } where
  running := h.running
  logged := h.logged
  unset := ⟨nofun, fun none => absurd none (Nat.ne_of_gt (Nat.zero_lt_of_lt lt))⟩
  inLog q hq := by cases hq; exact lt

omit [Iterator σ α] in
theorem Synced.push {t : Timeline (Recorded σ α) α} (h : t.Synced) (a : α) (inner : σ) :
    Synced ⟨t.inner.noted inner (.ok (some a)), t.log.push a, some t.log.size, t.phase⟩ where
  running := h.running
  logged := by
    rw [Recorded.items_noted, ← h.logged]
    exact Array.toList_push
  unset := ⟨nofun, fun none => by simp at none⟩
  inLog q hq := by cases hq; simp

omit [Iterator σ α] in
theorem Synced.pass {t : Timeline (Recorded σ α) α} (h : t.Synced)
    {answer : Except QueryError (Option α)} (inner : σ) (other : ∀ a, answer ≠ .ok (some a)) :
    Synced { t with inner := t.inner.noted inner answer } where
  running := h.running
  logged := by
    have none : Recorded.yielded? answer = none := by
      match answer with
      | .ok (some a) => exact absurd rfl (other a)
      | .ok none => rfl
      | .error _ => rfl
    rw [Recorded.items_noted, none, ← h.logged]
    exact (List.append_nil _).symm
  unset := h.unset
  inLog := h.inLog

/-- What a timeline over a recorded iterator shows of it, and what its next call does. Of the
answers the recorder adds exactly those for which the inner iterator was called. -/
structure IsCursor (t : Timeline (Recorded σ α) α) : Prop extends Synced t where
  -- behind the end of the log: the recorder, as part of the inner state, stays as it is
  replays : ∀ p, t.cursor = some p → p + 1 < t.log.size → ∃ a, t.inner.items[p + 1]? = some a ∧
    Iterator.next t = ⟨.ok (some a), { t with cursor := some (p + 1) }⟩
  -- at the end: one more answer is recorded, whichever it is
  appends : t.AtEnd → ∀ a inner, Iterator.next t.inner.inner = ⟨.ok (some a), inner⟩ →
    Iterator.next t = ⟨.ok (some a),
      ⟨t.inner.noted inner (.ok (some a)), t.log.push a, some t.log.size, t.phase⟩⟩
  passes : t.AtEnd → ∀ answer inner, Iterator.next t.inner.inner = ⟨answer, inner⟩ →
    (∀ a, answer ≠ .ok (some a)) →
    Iterator.next t = ⟨answer, { t with inner := t.inner.noted inner answer }⟩
  stepsBack : ∀ p, t.cursor = some (p + 1) → ∃ a, t.inner.items[p]? = some a ∧
    t.previous = ⟨.ok a, { t with cursor := some p }⟩
  refuses : (∀ p, t.cursor ≠ some (p + 1)) →
    t.previous = ⟨.error (.invalidState "Timeline" .previous .running), t⟩

theorem Synced.isCursor {t : Timeline (Recorded σ α) α} (h : t.Synced) : t.IsCursor where
  toSynced := h
  replays p hc lt := by
    obtain ⟨a, row, item⟩ := h.exists_item lt
    have next : t.ahead = p + 1 := by rw [ahead, hc]
    rw [← next] at row ⊢
    rw [← next] at item
    exact ⟨a, item, next_of_log h.producing row⟩
  appends last a inner ha := by
    rw [next_of_end h.producing (h.no_row_ahead last), Recorded.next_eq ha, yielded_item]
  passes last answer inner ha other := by
    rw [next_of_end h.producing (h.no_row_ahead last), Recorded.next_eq ha, yielded_other _ _ other]
  stepsBack p hc := by
    obtain ⟨a, row, item⟩ := h.exists_item (Nat.lt_of_succ_lt (h.inLog _ hc))
    exact ⟨a, item, previous_of_log h.running hc row⟩
  refuses first := by
    rw [previous_of_refused fun back => back.2.elim first, h.running]

theorem synced_move {t : Timeline (Recorded σ α) α} (h : t.Synced) (m : Move) :
    (t.move m).after.Synced := by
  have cursor := h.isCursor
  cases m with
  | next =>
    change (Iterator.next t).after.Synced
    rcases h.atEnd_or_lt with last | ⟨p, hc, lt⟩
    · cases hi : Iterator.next t.inner.inner with
      | mk answer inner =>
        by_cases item : ∃ a, answer = .ok (some a)
        · obtain ⟨a, rfl⟩ := item
          rw [cursor.appends last a inner hi]
          exact h.push a inner
        · rw [cursor.passes last answer inner hi (not_exists.1 item)]
          exact h.pass inner (not_exists.1 item)
    · obtain ⟨a, -, step⟩ := cursor.replays p hc lt
      rw [step]
      exact h.set_cursor lt
  | previous =>
    change t.previous.after.Synced
    by_cases back : ∃ p, t.cursor = some (p + 1)
    · obtain ⟨p, hc⟩ := back
      obtain ⟨a, -, step⟩ := cursor.stepsBack p hc
      rw [step]
      exact h.set_cursor (Nat.lt_of_succ_lt (h.inLog _ hc))
    · rw [cursor.refuses (not_exists.1 back)]
      exact h

theorem synced_moved {t : Timeline (Recorded σ α) α} (h : t.Synced) (moves : List Move) :
    (t.moved moves).Synced := by
  induction moves generalizing t with
  | nil => exact h
  | cons m moves ih => exact ih (synced_move h m)

theorem synced_recorded {t opened : Timeline σ α} (h : Iterator.start t = ⟨.ok (), opened⟩) :
    opened.recorded.Synced := by
  change t.started _ = _ at h
  unfold started at h
  split at h
  · cases h
    exact ⟨rfl, rfl, by simp [recorded], by simp [recorded]⟩
  · cases h

/-- From a successful start on, a timeline is a cursor over the items that its inner iterator has
yielded, whichever moves were made; and the recorder that tells so does not change what it does. -/
theorem isCursor_of_start {t opened : Timeline σ α} (h : Iterator.start t = ⟨.ok (), opened⟩)
    (moves : List Move) :
    (opened.recorded.moved moves).IsCursor ∧
      (opened.recorded.moved moves).erased = opened.moved moves ∧
      opened.recorded.answers moves = opened.answers moves := by
  have synced := synced_moved (synced_recorded h) moves
  obtain ⟨state, answers⟩ := erased_moved opened.recorded moves
  exact ⟨synced.isCursor, state, answers⟩

/-- Over a scan of two rows, with a call after the last row and back to the first one. -/
theorem isCursor_of_two_rows :
    ∃ r : Relation, ∃ opened : Timeline Scan Tuple,
      Iterator.start (Timeline.ofInner (Scan.ofRelation r)) = ⟨.ok (), opened⟩ ∧
      (opened.recorded.moved [.next, .next, .next, .previous]).IsCursor ∧
      (opened.moved [.next, .next, .next, .previous]).cursor = some 0 ∧
      (opened.moved [.next, .next, .next, .previous]).log.toList.map Tuple.values =
        [[.integer 1], [.integer 2]] := by
  let r := Relation.ofColumn ⟨"n", .integer⟩ [.integer 1, .integer 2] (by decide)
  let opened : Timeline Scan Tuple := ⟨⟨r, 0, .running⟩, #[], none, .running⟩
  have started : Iterator.start (Timeline.ofInner (Scan.ofRelation r)) = ⟨.ok (), opened⟩ := rfl
  refine ⟨r, opened, started, (isCursor_of_start started _).1, ?_, ?_⟩
  · decide +kernel
  · decide +kernel

end Timeline
end PullAlgebra
