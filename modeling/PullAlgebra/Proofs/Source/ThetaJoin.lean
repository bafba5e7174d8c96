import PullAlgebra.Proofs.Emission
import PullAlgebra.Proofs.Source.Construction
import PullAlgebra.Proofs.Source.RowPairs

/-!
# PullAlgebra.Proofs.Source.ThetaJoin

A theta join as a filter. It yields, pair by pair in row-major order, what its predicate makes of
the pair: its tuple, nothing, or an error.

* `seek_cases`: one search takes the first outcome from its cursor on.
* `emits_outcomesFrom`: the rest of a run.
* `outcomesFrom_first`: the whole of it as two nested loops.
* `outcomes_of_decided`, `decided_or_fails`: a predicate that has a boolean value everywhere, or else
  a first pair on which it fails.
-/

namespace PullAlgebra

namespace ThetaJoin

/-- What the join gives for a pair of rows: a tuple, an error, or nothing. -/
def outcome (predicate : Expression) :
    Except QueryError Tuple → Option (Except QueryError Tuple)
  | .error e => some (.error e)
  | .ok t =>
    match predicate.test t with
    | .error e => some (.error e)
    | .ok true => some (.ok t)
    | .ok false => none

def outcomesFrom (r s : Relation) (predicate : Expression) (cursor : PairCursor) :
    List (Except QueryError Tuple) :=
  (cursor.rest r.size s.size).filterMap fun pair =>
    outcome predicate (joinRows r s pair.1 pair.2)

theorem outcomesFrom_eq {r s : Relation} {predicate : Expression} {cursor after : PairCursor}
    {pair : Nat × Nat} (h : cursor.advance r.size s.size = some (pair, after)) :
    outcomesFrom r s predicate cursor =
      (outcome predicate (joinRows r s pair.1 pair.2)).toList ++
        outcomesFrom r s predicate after := by
  unfold outcomesFrom
  rw [PairCursor.rest_of_some h, List.filterMap_cons]
  cases outcome predicate (joinRows r s pair.1 pair.2) <;> rfl

/-- A search gives the first outcome from its cursor on, and ends behind it. -/
theorem seek_cases (r s : Relation) (predicate : Expression) (cursor : PairCursor) :
    (∃ after, seek r s predicate cursor = (.ok none, after) ∧
      outcomesFrom r s predicate cursor = []) ∨
    (∃ t after, seek r s predicate cursor = (.ok (some t), after) ∧
      outcomesFrom r s predicate cursor = .ok t :: outcomesFrom r s predicate after) ∨
    (∃ e after, seek r s predicate cursor = (.error e, after) ∧
      outcomesFrom r s predicate cursor = .error e :: outcomesFrom r s predicate after) := by
  fun_induction seek r s predicate cursor with
  | case1 cursor h =>
    exact .inl ⟨_, rfl, by rw [outcomesFrom, PairCursor.rest_of_none h]; rfl⟩
  | case2 cursor i k after h _ e hj =>
    refine .inr (.inr ⟨_, _, rfl, ?_⟩)
    rw [outcomesFrom_eq h, hj]
    rfl
  | case3 cursor i k after h _ t hj e ht =>
    refine .inr (.inr ⟨_, _, rfl, ?_⟩)
    rw [outcomesFrom_eq h, hj]
    simp [outcome, ht]
  | case4 cursor i k after h _ t hj ht =>
    refine .inr (.inl ⟨_, _, rfl, ?_⟩)
    rw [outcomesFrom_eq h, hj]
    simp [outcome, ht]
  | case5 cursor i k after h _ t hj ht ih =>
    have same : outcomesFrom r s predicate cursor = outcomesFrom r s predicate after := by
      rw [outcomesFrom_eq h, hj]
      simp [outcome, ht]
    rw [same]
    exact ih

theorem next_running {j : ThetaJoin} (h : j.phase = .running) : Iterator.next j = j.produce := by
  change j.phase.gate "ThetaJoin" j _ = _
  rw [h]
  rfl

theorem emits_outcomesFrom {j : ThetaJoin} (running : j.phase = .running) :
    Emits j (outcomesFrom j.r j.s j.predicate j.cursor) := by
  have hn := next_running running
  unfold produce at hn
  rcases seek_cases j.r j.s j.predicate j.cursor with
    ⟨after, hs, ho⟩ | ⟨t, after, hs, ho⟩ | ⟨e, after, hs, ho⟩ <;> rw [hs] at hn <;> rw [ho]
  · exact .done hn
  · exact .item hn (emits_outcomesFrom (j := { j with cursor := after }) running)
  · exact .fail hn (emits_outcomesFrom (j := { j with cursor := after }) running)
termination_by (outcomesFrom j.r j.s j.predicate j.cursor).length
decreasing_by all_goals rw [ho]; exact Nat.lt_succ_self _

theorem outcomesFrom_first (r s : Relation) (predicate : Expression) :
    outcomesFrom r s predicate .first = r.tuples.toList.flatMap fun t =>
      s.tuples.toList.filterMap fun u => outcome predicate (liftTable (t.join u)) := by
  have rows (x : Relation) : x.size = x.tuples.toList.length := Array.length_toList.symm
  unfold outcomesFrom
  rw [rows r, rows s]
  refine PairCursor.filterMap_rest_first _ _ ?_
  intro i k t u ht hu
  rw [joinRows_eq ht hu]

/-! ## The predicate on all pairs -/

/-- Whether the predicate is true of the tuple. -/
def accepts (predicate : Expression) (t : Tuple) : Bool :=
  match predicate.test t with
  | .ok b => b
  | .error _ => false

variable {predicate : Expression} {rows : List Tuple}

/-- Where the predicate has a boolean value everywhere, the outcomes are the rows that it accepts. -/
theorem outcomes_of_decided (h : ∀ row ∈ rows, ∃ b, predicate.test row = .ok b) :
    (rows.filterMap fun row => outcome predicate (.ok row)) =
      (rows.filter (accepts predicate)).map .ok := by
  induction rows with
  | nil => rfl
  | cons row rows ih =>
    obtain ⟨b, test⟩ := h row (List.mem_cons_self ..)
    have rest := ih fun other hm => h other (List.mem_cons_of_mem _ hm)
    have accepted : accepts predicate row = b := by rw [accepts, test]
    rw [List.filterMap_cons, rest, List.filter_cons, accepted, outcome, test]
    cases b <;> rfl

/-- Otherwise there is a first row on which it fails. -/
theorem decided_or_fails (predicate : Expression) (rows : List Tuple) :
    (∀ row ∈ rows, ∃ b, predicate.test row = .ok b) ∨
      ∃ before row after e, rows = before ++ row :: after ∧
        (∀ earlier ∈ before, ∃ b, predicate.test earlier = .ok b) ∧
        predicate.test row = .error e := by
  rcases forall_or_first (fun row => ∃ b, predicate.test row = .ok b) rows with
    decided | ⟨before, row, after, split, decided, failed⟩
  · exact .inl decided
  · cases test : predicate.test row with
    | ok b => exact absurd ⟨b, test⟩ failed
    | error e => exact .inr ⟨before, row, after, e, split, decided, test⟩

end ThetaJoin
end PullAlgebra
