import PullAlgebra.Proofs.Pipeline.Bounds
import PullAlgebra.Proofs.Pipeline.Protocol
import PullAlgebra.Proofs.Schema.Collision
import PullAlgebra.Proofs.Source.CrossJoin

/-!
# PullAlgebra.Proofs.Pipeline.Joins

Nested loops as their callers see them, after whatever calls: the answers to the calls of `next` by
their numbers, and a whole run.

* `start_join_after`: a join is started into one state, whatever happened to it before.
* `answers_in_run`: which calls on a join can fail.
* `cross_join_is_product`: all pairs of rows, one after the other.
* `collect_eq_ok_iff`, `collect_eq_error_iff`: what a filter is collected as.
* `theta_join_filters_combinations`: the pairs that a predicate accepts or fails on.
-/

namespace PullAlgebra

open Pipeline

theorem nthAnswer_source_of_emits {o : Source} {outcomes : List (Except QueryError Tuple)}
    (h : Emits o outcomes) (n : Nat) : nthAnswer (source o) n = answerOf outcomes[n]? := by
  rw [nthAnswer_inside (f := source) (fun _ => rfl)]
  exact nthAnswer_of_emits (fun _ => Source.next_next_of_none) h n

section Joins

variable {join : Join} {r s : Relation} {o : Source}

theorem exists_source_after (built : join.build r s = .ok o) (history : List Command) :
    ∃ u, (source o).after history = source u ∧ u.reset = o :=
  eq_source_of_reset
    ((reset_after _ history).trans (congrArg source (reset_of_build built)))

theorem start_join_after {opened : Source} (built : join.build r s = .ok o)
    (started : o.start = ⟨.ok (), opened⟩) (history : List Command) :
    ((source o).after history).start = ⟨.ok (), source opened⟩ := by
  obtain ⟨u, reached, same⟩ := exists_source_after built history
  rw [reached]
  exact congrArg (Reply.inside source) (Source.start_of_reset started same)

/-- Between a start and a close, no call fails unless a predicate does. -/
theorem answers_in_run (built : join.build r s = .ok o) (history : List Command)
    {since : List Command} (notClosed : .close ∉ since) (c : Command) :
    (∃ answer, (((source o).after (history ++ .start :: since)).perform c).result = .ok answer) ∨
      ∃ (u : Source) (e : QueryError), u.reset = o ∧ u.PredicateFails e := by
  have fresh := Fresh.join built
  obtain ⟨state, started⟩ := fresh.exists_start_after
  obtain ⟨u, reached, same⟩ := exists_source_after built (history ++ .start :: since)
  have opened : u.phase.isOpen := by
    have was : (source o).Opened (history ++ .start :: since) :=
      ⟨history, since, rfl, by rw [started], notClosed⟩
    rw [← isOpen_after_iff fresh.phase_eq, reached] at was
    exact was
  have sound : u.Sound := by
    have := fresh.sound_after (history ++ .start :: since)
    rwa [reached] at this
  cases c with
  | start =>
    refine .inl ⟨none, ?_⟩
    rw [perform, started]
    rfl
  | next =>
    rw [reached]
    cases answer : u.next.result with
    | ok found => exact .inl ⟨found, answer⟩
    | error e =>
      rcases Source.error_of_next sound answer with ⟨notOpen, -⟩ | ⟨-, failed⟩
      · rw [opened] at notOpen
        cases notOpen
      · exact .inr ⟨u, e, same, failed⟩
  | close => exact .inl ⟨none, rfl⟩
  | previous =>
    rw [reached]
    exact .inl ⟨none, rfl⟩

end Joins

/-! ## The product -/

/-- A cross join is refused for the first column of the second relation whose name the first one
has. Without such a column, from any start on the `n`-th item is made of row `n / s.size` of the
first relation and row `n % s.size` of the second one, as long as there are such rows, and nothing
comes after them; no call fails until there is a close. -/
theorem cross_join_is_product (r s : Relation) :
    (∀ c, (s.schema.columns.find? fun c => decide (c.name ∈ r.schema.names)) = some c →
      Join.cross.build r s = .error (.table (.duplicateColumn c.name))) ∧
    ((∀ c ∈ s.schema.columns, c.name ∉ r.schema.names) →
      ∃ o, Join.cross.build r s = .ok o ∧ ∀ history,
        (∃ opened, ((source o).after history).start = ⟨.ok (), opened⟩ ∧
          (∀ n, n < r.size * s.size → ∃ t u v, r.get? (n / s.size) = some t ∧
            s.get? (n % s.size) = some u ∧ v.fields = t.fields ++ u.fields ∧
            Tuple.ofFields (t.fields ++ u.fields) = .ok v ∧
            nthAnswer opened n = .ok (some v)) ∧
          ∀ n, r.size * s.size ≤ n → nthAnswer opened n = .ok none) ∧
        ∀ since c, .close ∉ since → ∃ answer,
          (((source o).after (history ++ .start :: since)).perform c).result = .ok answer) := by
  constructor
  · intro c common
    exact Join.build_cross_of_error (Schema.join_of_find? common)
  · intro apart
    obtain ⟨schema, joined⟩ := Schema.exists_join_of_apart apart
    have built := Join.build_cross_of_join joined
    refine ⟨_, built, ?_⟩
    intro history
    have answers := nthAnswer_source_of_emits
      ((CrossJoin.emits_numbered (j := ⟨r, s, schema, joined, .first, .running⟩) rfl rfl).inside
        (f := Source.cross) fun _ => rfl)
    refine ⟨⟨_, start_join_after built rfl history, ?_, ?_⟩, ?_⟩
    · intro n below
      obtain ⟨outer, inner⟩ := PairCursor.lt_of_number below
      obtain ⟨t, u, v, ht, hu, combined, fields, row⟩ := exists_joinRows joined outer inner
      refine ⟨t, u, v, ht, hu, fields, ?_, ?_⟩
      · rw [← Tuple.join_eq_ofFields, combined]
      · refine (answers n).trans ?_
        rw [List.getElem?_map, List.getElem?_range below, Option.map_some, row]
        rfl
    · intro n beyond
      refine (answers n).trans ?_
      rw [List.getElem?_eq_none (by simpa using beyond)]
      rfl
    · intro since c notClosed
      rcases answers_in_run built history notClosed c with answered | ⟨u, e, same, failed⟩
      · exact answered
      · -- only a theta join has a predicate, and no call makes one of a cross join
        cases u with
        | theta j => cases same
        | _ => exact False.elim failed

/-- A row of the first relation meets each row of the second one before the next does. -/
theorem fourth_pair_of_six :
    ∃ r s o opened v, Join.cross.build r s = .ok o ∧
      ((source o).after [.start, .next, .close]).start = ⟨.ok (), opened⟩ ∧
      nthAnswer opened 3 = .ok (some v) ∧ v.values = [.integer 2, .string "y"] ∧
      nthAnswer opened 6 = .ok none ∧
      Join.cross.build r r = .error (.table (.duplicateColumn "a")) := by
  let r := Relation.ofColumn ⟨"a", .integer⟩ [.integer 1, .integer 2, .integer 3] (by decide)
  let s := Relation.ofColumn ⟨"b", .string⟩ [.string "x", .string "y"] (by decide)
  have apart : ∀ c ∈ s.schema.columns, c.name ∉ r.schema.names := by
    simp [r, s, Schema.names]
  have common : (r.schema.columns.find? fun c => decide (c.name ∈ r.schema.names)) =
      some ⟨"a", .integer⟩ := by
    simp [r, Schema.names]
  obtain ⟨o, built, runs⟩ := (cross_join_is_product r s).2 apart
  obtain ⟨⟨opened, started, items, ended⟩, -⟩ := runs [.start, .next, .close]
  obtain ⟨t, u, v, ht, hu, fields, -, fourth⟩ := items 3 (by decide)
  refine ⟨r, s, o, opened, v, built, started, fourth, ?_, ended 6 (by decide),
    (cross_join_is_product r r).1 _ common⟩
  have left : (r.get? (3 / s.size)).map Tuple.values = some [.integer 2] := by decide +kernel
  have right : (s.get? (3 % s.size)).map Tuple.values = some [.string "y"] := by decide +kernel
  rw [ht, Option.map_some, Option.some.injEq] at left
  rw [hu, Option.map_some, Option.some.injEq] at right
  rw [Tuple.values, fields, List.map_append]
  exact congrArg₂ (· ++ ·) left right

/-! ## The filter -/

theorem outcomesFrom_of_combinations {r s : Relation} {rows : List Tuple}
    (whole : combinations r s = rows.map .ok) (predicate : Expression) :
    ThetaJoin.outcomesFrom r s predicate .first =
      rows.filterMap fun row => ThetaJoin.outcome predicate (.ok row) := by
  have flat : ThetaJoin.outcomesFrom r s predicate .first =
      (combinations r s).filterMap fun row => ThetaJoin.outcome predicate (liftTable row) := by
    simp only [ThetaJoin.outcomesFrom_first, combinations, List.filterMap_flatMap,
      List.filterMap_map]
    rfl
  rw [flat, whole, List.filterMap_map]
  rfl

section Filter

variable {q : Expression} {rows : List Tuple} {o opened : Pipeline Source}
  (started : o.start = ⟨.ok (), opened⟩)
  (run : Emits opened (rows.filterMap fun row => ThetaJoin.outcome q (.ok row)))
include started run

theorem collect_of_decided (decided : ∀ row ∈ rows, ∃ b, q.test row = .ok b) :
    (collect o).result = .ok (rows.filter (ThetaJoin.accepts q)).toArray := by
  rw [ThetaJoin.outcomes_of_decided decided] at run
  exact collect_of_emits started run

theorem collect_of_first_failure {before after : List Tuple} {row : Tuple} {e : QueryError}
    (split : rows = before ++ row :: after)
    (decided : ∀ earlier ∈ before, ∃ b, q.test earlier = .ok b) (failed : q.test row = .error e) :
    (collect o).result = .error e := by
  have first : ThetaJoin.outcome q (.ok row) = some (.error e) := by rw [ThetaJoin.outcome, failed]
  rw [split, List.filterMap_append, List.filterMap_cons, first,
    ThetaJoin.outcomes_of_decided decided] at run
  exact collect_of_emits_error started run

theorem collect_eq_ok_iff (items : Array Tuple) :
    (collect o).result = .ok items ↔ (∀ row ∈ rows, ∃ b, q.test row = .ok b) ∧
      items.toList = rows.filter (ThetaJoin.accepts q) := by
  constructor
  · intro collected
    rcases ThetaJoin.decided_or_fails q rows with
      decided | ⟨before, row, after, e, split, decided, failed⟩
    · cases collected.symm.trans (collect_of_decided started run decided)
      exact ⟨decided, rfl⟩
    · cases collected.symm.trans (collect_of_first_failure started run split decided failed)
  · rintro ⟨decided, same⟩
    rw [collect_of_decided started run decided, ← same]

theorem collect_eq_error_iff (e : QueryError) :
    (collect o).result = .error e ↔ ∃ before row after, rows = before ++ row :: after ∧
      (∀ earlier ∈ before, ∃ b, q.test earlier = .ok b) ∧ q.test row = .error e := by
  constructor
  · intro collected
    rcases ThetaJoin.decided_or_fails q rows with
      decided | ⟨before, row, after, e', split, decided, failed⟩
    · cases collected.symm.trans (collect_of_decided started run decided)
    · cases collected.symm.trans (collect_of_first_failure started run split decided failed)
      exact ⟨before, row, after, split, decided, failed⟩
  · rintro ⟨before, row, after, split, decided, failed⟩
    exact collect_of_first_failure started run split decided failed

end Filter

/-- A theta join goes through the combinations of all rows, by rows of the first relation. From any
start on it answers with those that its predicate accepts and with an error for each on which the
predicate fails, in their order, and then with nothing. It is collected as the accepted rows if the
predicate has a boolean value everywhere, and as the first error otherwise, and closed after it. -/
theorem theta_join_filters_combinations {r s : Relation} {p : Expression} {o : Source}
    (built : (Join.theta p).build r s = .ok o) (history : List Command) :
    ∃ (schema : Schema) (q : Expression) (rows : List Tuple) (opened : Pipeline Source),
      r.schema.join s.schema = .ok schema ∧ p.bind schema = .ok q ∧
      combinations r s = rows.map .ok ∧
      ((source o).after history).start = ⟨.ok (), opened⟩ ∧
      (∀ n, nthAnswer opened n =
        answerOf (rows.filterMap fun row => ThetaJoin.outcome q (.ok row))[n]?) ∧
      (∀ items, (collect ((source o).after history)).result = .ok items ↔
        (∀ row ∈ rows, ∃ b, q.test row = .ok b) ∧
          items.toList = rows.filter (ThetaJoin.accepts q)) ∧
      (∀ e, (collect ((source o).after history)).result = .error e ↔
        ∃ before row after, rows = before ++ row :: after ∧
          (∀ earlier ∈ before, ∃ b, q.test earlier = .ok b) ∧ q.test row = .error e) ∧
      (collect ((source o).after history)).after.phase = .closed := by
  obtain ⟨j, accepted, rfl⟩ := map_eq_ok built
  obtain ⟨schema, joined, q, bound, rfl⟩ := ThetaJoin.exists_of_ofRelations accepted
  obtain ⟨rows, whole⟩ := exists_combinations joined
  have started := start_join_after built rfl history
  have run : Emits (Source.theta ⟨r, s, schema, joined, q, .first, .running⟩)
      (rows.filterMap fun row => ThetaJoin.outcome q (.ok row)) := by
    rw [← outcomesFrom_of_combinations whole]
    exact (ThetaJoin.emits_outcomesFrom (j := ⟨r, s, schema, joined, q, .first, .running⟩) rfl).inside
      fun _ => rfl
  have run' := run.inside (f := source) fun _ => rfl
  refine ⟨schema, q, rows, _, joined, bound, whole, started, nthAnswer_source_of_emits run,
    collect_eq_ok_iff started run', collect_eq_error_iff started run', ?_⟩
  obtain ⟨last, closed⟩ := exists_close_of_collect (s := (source (Source.theta _)).after history) started
  rw [closed]
  exact phase_close last

/-- A quotient by zero in the middle: the pairs with it are reported one by one and the run goes on
behind them, but it cannot be collected. -/
theorem quotients_around_zero :
    ∃ r s p o opened, (Join.theta p).build r s = .ok o ∧
      ((source o).after [.start, .next]).start = ⟨.ok (), opened⟩ ∧
      ((List.range 5).map fun n => (nthAnswer opened n).map (Option.map Tuple.values)) =
        [.ok (some [.integer 2, .integer 3]),
          .error (.noArithmetic .divide (.integer 6) (.integer 0)),
          .error (.noArithmetic .divide (.integer 6) (.integer 0)),
          .ok (some [.integer 3, .integer 2]), .ok none] ∧
      (collect ((source o).after [.start, .next])).result =
        .error (.noArithmetic .divide (.integer 6) (.integer 0)) ∧
      (collect ((source o).after [.start, .next])).after.phase = .closed := by
  let r := Relation.ofColumn ⟨"n", .integer⟩ [.integer 2, .integer 0, .integer 3] (by decide)
  let s := Relation.ofColumn ⟨"m", .integer⟩ [.integer 3, .integer 2] (by decide)
  let schema : Schema := .ofDistinct [⟨"n", .integer⟩, ⟨"m", .integer⟩] (by decide)
  let predicate (n m : Expression) : Expression :=
    .binary (.comparison .eq) (.binary (.arithmetic .divide) (.literal (.integer 6)) n) m
  have n : schema.indexOf? "n" = some 0 := Schema.indexOf?_ofDistinct rfl
  have m : schema.indexOf? "m" = some 1 := Schema.indexOf?_ofDistinct rfl
  have bound : (predicate (.column "n") (.column "m")).bind schema =
      .ok (predicate (.bound 0) (.bound 1)) := by
    simp only [predicate, Expression.bind, n, m]
    rfl
  have built : (Join.theta (predicate (.column "n") (.column "m"))).build r s = .ok _ :=
    Join.build_theta_of_bind (Relation.join_ofColumn (by decide)) bound
  obtain ⟨_, _, _, opened, -, -, -, started, -, -, -, closed⟩ :=
    theta_join_filters_combinations built [.start, .next]
  have same : _ = opened := congrArg Reply.after started
  refine ⟨r, s, _, _, opened, built, started, ?_, ?_, closed⟩
  · rw [← same]
    decide +kernel
  · decide +kernel

end PullAlgebra
