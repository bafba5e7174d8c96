import PullAlgebra.Proofs.OpenPhase
import PullAlgebra.Proofs.Source.Reset

/-!
# PullAlgebra.Proofs.Source.Phases

The phases of a source. All kinds of sources go through them in one way: before the start and after
a close `next` is refused, in a run it produces rows, and the first answer without a row exhausts
the source.

* `Refused`: the answers that report a call in a wrong phase.
* `Source.next_eq`: one gate stands before what each kind of source produces.
* `Source.not_refused_produce`: nothing behind the gate reports a wrong phase, no predicate and no
  look-up of a key included.
* `Source.next_next_of_none`: a source without a further row has none from then on.
-/

namespace PullAlgebra

/-! ## Refusals -/

/-- The answer reports that an operator was called in a phase that does not allow the call. -/
def Refused {α : Type} (answer : Except QueryError α) : Prop :=
  ∃ operator call phase, answer = .error (.invalidState operator call phase)

section Answers

variable {α β : Type}

@[simp] theorem not_refused_ok (a : α) : ¬Refused (.ok a) := by simp [Refused]

@[simp] theorem refused_error (e : QueryError) :
    Refused (.error e : Except QueryError α) ↔
      ∃ operator call phase, e = .invalidState operator call phase := by simp [Refused]

theorem refused_map {f : α → β} {answer : Except QueryError α} :
    Refused (answer.map f) ↔ Refused answer := by
  cases answer <;> simp [Except.map]

theorem not_refused_liftTable (answer : Except TableError α) : ¬Refused (liftTable answer) := by
  cases answer <;> simp [liftTable, Except.mapError]

theorem not_refused_bind {x : Except QueryError α} {f : α → Except QueryError β}
    (hx : ¬Refused x) (hf : ∀ a, ¬Refused (f a)) : ¬Refused (x >>= f) := by
  cases x with
  | ok a => exact hf a
  | error e =>
    intro h
    exact hx (by simpa [bind, Except.bind] using h)

theorem not_refused_joinRows (r s : Relation) (a b : Nat) : ¬Refused (joinRows r s a b) := by
  unfold joinRows
  split
  · simp
  · split
    · simp
    · exact not_refused_liftTable _

theorem BinaryOp.not_refused_apply (op : BinaryOp) (a b : Value) : ¬Refused (op.apply a b) := by
  unfold apply
  split <;> split <;> simp

namespace Expression

theorem not_refused_negate (v : Value) : ¬Refused (negate v) := by
  cases v <;> simp [negate]

theorem not_refused_evaluate (t : Tuple) (e : Expression) : ¬Refused (evaluate t e) := by
  induction e with
  | column name => simp [evaluate]
  | bound i =>
    unfold evaluate
    split <;> simp
  | literal v => simp [evaluate]
  | binary op left right ihl ihr =>
    refine not_refused_bind ihl ?_
    intro a
    exact not_refused_bind ihr (op.not_refused_apply a)
  | not e ih => exact not_refused_bind ih not_refused_negate

theorem not_refused_test (t : Tuple) (e : Expression) : ¬Refused (test t e) := by
  have evaluated := not_refused_evaluate t e
  unfold test
  split
  · simp
  · simp
  · rename_i h
    rw [h] at evaluated
    simpa using evaluated

end Expression

theorem Tuple.not_refused_key (t : Tuple) (columns : List Nat) : ¬Refused (t.key columns) := by
  unfold key
  induction columns with
  | nil => exact not_refused_ok _
  | cons i columns ih =>
    rw [List.mapM_cons]
    refine not_refused_bind ?_ ?_
    · split <;> simp
    · intro atom
      exact not_refused_bind ih fun _ => not_refused_ok _

end Answers

/-! ## What is behind the gate -/

theorem map_some_ne_ok_none {ε α : Type} (x : Except ε α) : x.map some ≠ .ok none := by
  cases x <;> simp [Except.map]

namespace Scan

theorem phase_produce (s : Scan) :
    s.produce.result = .ok none ∧ s.produce.after.phase = .exhausted ∨
      s.produce.result ≠ .ok none ∧ s.produce.after.phase = s.phase := by
  unfold produce
  split <;> simp

theorem not_refused_produce (s : Scan) : ¬Refused s.produce.result := by
  unfold produce
  split <;> simp

end Scan

namespace CrossJoin

theorem phase_produce (j : CrossJoin) :
    j.produce.result = .ok none ∧ j.produce.after.phase = .exhausted ∨
      j.produce.result ≠ .ok none ∧ j.produce.after.phase = j.phase := by
  unfold produce
  split
  · simp
  · exact .inr ⟨map_some_ne_ok_none _, rfl⟩

theorem not_refused_produce (j : CrossJoin) : ¬Refused j.produce.result := by
  unfold produce
  split
  · simp
  · exact fun h => not_refused_joinRows _ _ _ _ (refused_map.1 h)

end CrossJoin

namespace ThetaJoin

theorem phase_produce (j : ThetaJoin) :
    j.produce.result = .ok none ∧ j.produce.after.phase = .exhausted ∨
      j.produce.result ≠ .ok none ∧ j.produce.after.phase = j.phase := by
  unfold produce
  split
  · simp
  · rename_i other _
    exact .inr ⟨other, rfl⟩

theorem not_refused_seek (r s : Relation) (predicate : Expression) (cursor : PairCursor) :
    ¬Refused (seek r s predicate cursor).1 := by
  fun_induction seek r s predicate cursor with
  | case1 => simp
  | case2 cursor a b _ _ _ e row =>
    have joined := not_refused_joinRows r s a b
    rw [row] at joined
    simpa using joined
  | case3 cursor a b _ _ _ t _ e failed =>
    have tested := Expression.not_refused_test t predicate
    rw [failed] at tested
    simpa using tested
  | case4 => simp
  | case5 _ _ _ _ _ _ _ _ _ ih => exact ih

theorem not_refused_produce (j : ThetaJoin) : ¬Refused j.produce.result := by
  have found := not_refused_seek j.r j.s j.predicate j.cursor
  unfold produce
  split
  · simp
  · rename_i h
    rw [h] at found
    exact found

end ThetaJoin

namespace HashJoin

theorem phase_produce (j : HashJoin) :
    j.produce.result = .ok none ∧ j.produce.after.phase = .exhausted ∨
      j.produce.result ≠ .ok none ∧ j.produce.after.phase = j.phase := by
  unfold produce
  split
  · simp
  · rename_i other _
    exact .inr ⟨other, rfl⟩

theorem not_refused_combine (j : HashJoin) (a b : Nat) : ¬Refused (j.combine a b) := by
  unfold combine
  split <;> exact not_refused_joinRows _ _ _ _

theorem not_refused_seek (j : HashJoin) (row : Nat) (lookUp : Option LookUp) :
    ¬Refused (j.seek row lookUp).1 := by
  fun_induction seek j row lookUp with
  | case1 => simp
  | case2 => exact fun h => j.not_refused_combine _ _ (refused_map.1 h)
  | case3 _ _ _ _ _ ih => exact ih
  | case4 => simp
  | case5 row t _ _ e failed =>
    have keyed := t.not_refused_key j.scanned.2
    rw [failed] at keyed
    simpa using keyed
  | case6 _ _ _ _ _ _ ih => exact ih

theorem not_refused_produce (j : HashJoin) : ¬Refused j.produce.result := by
  have found := j.not_refused_seek j.row j.lookUp
  unfold produce
  split
  · simp
  · rename_i h
    rw [h] at found
    exact found

end HashJoin

/-! ## The kinds of sources together -/

namespace Source

def phase : Source → Phase
  | .scan s => s.phase
  | .cross j => j.phase
  | .theta j => j.phase
  | .hash j => j.phase

/-- The name under which the source reports a call in a wrong phase. -/
def operator : Source → String
  | .scan _ => "RelationScan"
  | .cross _ => "CrossJoin"
  | .theta _ => "ThetaJoin"
  | .hash _ => "HashJoin"

def produce : Source → Reply Source (Option Tuple)
  | .scan s => s.produce.inside .scan
  | .cross j => j.produce.inside .cross
  | .theta j => j.produce.inside .theta
  | .hash j => j.produce.inside .hash

theorem next_eq (o : Source) : o.next = o.phase.gate o.operator o fun _ => o.produce := by
  cases o with
  | scan s => obtain ⟨_, _, phase⟩ := s; cases phase <;> rfl
  | cross j => obtain ⟨_, _, _, _, _, phase⟩ := j; cases phase <;> rfl
  | theta j => obtain ⟨_, _, _, _, _, _, phase⟩ := j; cases phase <;> rfl
  | hash j => obtain ⟨_, _, _, _, _, _, _, _, _, phase⟩ := j; cases phase <;> rfl

theorem phase_produce (o : Source) :
    o.produce.result = .ok none ∧ o.produce.after.phase = .exhausted ∨
      o.produce.result ≠ .ok none ∧ o.produce.after.phase = o.phase := by
  cases o with
  | scan s => exact s.phase_produce
  | cross j => exact j.phase_produce
  | theta j => exact j.phase_produce
  | hash j => exact j.phase_produce

theorem not_refused_produce (o : Source) : ¬Refused o.produce.result := by
  cases o with
  | scan s => exact s.not_refused_produce
  | cross j => exact j.not_refused_produce
  | theta j => exact j.not_refused_produce
  | hash j => exact j.not_refused_produce

theorem next_of_running {o : Source} (h : o.phase = .running) : o.next = o.produce := by
  rw [next_eq, h]
  rfl

theorem next_of_exhausted {o : Source} (h : o.phase = .exhausted) : o.next = ⟨.ok none, o⟩ := by
  rw [next_eq, h]
  rfl

theorem next_of_not_isOpen {o : Source} (h : o.phase.isOpen = false) :
    o.next = ⟨.error (.invalidState o.operator .next o.phase), o⟩ := by
  rw [next_eq, Phase.gate_of_not_isOpen h]

theorem phase_next (o : Source) :
    o.next.after.phase = o.phase ∨ o.phase = .running ∧ o.next.after.phase = .exhausted := by
  cases phase : o.phase with
  | running =>
    rw [next_of_running phase]
    rcases o.phase_produce with ⟨-, after⟩ | ⟨-, after⟩
    · exact .inr ⟨rfl, after⟩
    · exact .inl (after.trans phase)
  | exhausted =>
    rw [next_of_exhausted phase]
    exact .inl phase
  | unopened | closed =>
    rw [next_of_not_isOpen (by rw [phase]; rfl)]
    exact .inl phase

theorem not_refused_next {o : Source} (h : o.phase.isOpen) : ¬Refused o.next.result := by
  cases phase : o.phase with
  | running =>
    rw [next_of_running phase]
    exact o.not_refused_produce
  | exhausted => simp [next_of_exhausted phase]
  | unopened | closed =>
    rw [phase] at h
    cases h

theorem next_next_of_none {o : Source} (h : o.next.result = .ok none) :
    o.next.after.next = ⟨.ok none, o.next.after⟩ := by
  cases phase : o.phase with
  | running =>
    rw [next_of_running phase] at h ⊢
    rcases o.phase_produce with ⟨-, after⟩ | ⟨other, -⟩
    · exact next_of_exhausted after
    · exact absurd h other
  | exhausted => rw [next_of_exhausted phase, next_of_exhausted phase]
  | unopened | closed =>
    rw [next_of_not_isOpen (by rw [phase]; rfl)] at h
    cases h

theorem start_cases (o : Source) :
    (∃ opened, o.start = ⟨.ok (), opened⟩ ∧ opened.phase = .running) ∨
      ∃ e, o.start = ⟨.error e, o⟩ := by
  cases o with
  | hash j =>
    cases table : HashTable.build j.grouped.1 j.grouped.2 with
    | ok _ => exact .inl ⟨_, congrArg (Reply.inside hash) (HashJoin.start_of_ok table), rfl⟩
    | error e => exact .inr ⟨e, congrArg (Reply.inside hash) (HashJoin.start_of_error table)⟩
  | _ => exact .inl ⟨_, rfl, rfl⟩

theorem phase_of_start_ok {o opened : Source} (h : o.start = ⟨.ok (), opened⟩) :
    opened.phase = .running := by
  rcases o.start_cases with ⟨_, started, running⟩ | ⟨e, failed⟩
  · cases h.symm.trans started
    exact running
  · cases h.symm.trans failed

theorem phase_close (o : Source) : o.close.phase = .closed := by cases o <;> rfl

theorem close_close (o : Source) : o.close.close = o.close := by cases o <;> rfl

end Source
end PullAlgebra
