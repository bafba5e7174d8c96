import PullAlgebra.Proofs.Loops
import PullAlgebra.Proofs.Pipeline.Bounds
import PullAlgebra.Proofs.Pipeline.Runs
import PullAlgebra.Proofs.Source.EquiJoin

/-!
# PullAlgebra.Proofs.Pipeline.Termination

How long a run takes. A source gives at most one outcome for each row or pair of rows, and the layers
above it add none, so that many calls of `next` and one more lead to the end, errors counted. Inside a
call, a join may go through any number of rows without a match; each turn of its loop leaves fewer of
them.

* `ThetaJoin.within_seek`, `HashJoin.within_seek`, `Timeline.within_rewindFrom`: the loops.
* `Source.rowLimit`: the number of rows, or of pairs of rows; `Source.exists_runs_of_build` and
  `Fresh.exists_runs` that there are no more outcomes.
* `draining_ends`: runs, searches and rewinds.
-/

namespace PullAlgebra

/-! ## Inside a call -/

namespace PairCursor

theorem length_rest_le {outerRows innerRows : Nat} {c : PairCursor} (h : c.InRow innerRows) :
    (c.rest outerRows innerRows).length ≤ outerRows * innerRows := by
  rw [rest_eq h, List.length_map, List.length_range']
  exact Nat.sub_le ..

end PairCursor

namespace ThetaJoin

/-- One turn of a search: past one pair, or to an end. -/
def seekTurn (r s : Relation) (predicate : Expression) (cursor : PairCursor) :
    PairCursor ⊕ (Except QueryError (Option Tuple) × PairCursor) :=
  match cursor.advance r.size s.size with
  | none => .inr (.ok none, cursor)
  | some ((a, b), after) =>
    match joinRows r s a b with
    | .error e => .inr (.error e, after)
    | .ok t =>
      match predicate.test t with
      | .error e => .inr (.error e, after)
      | .ok true => .inr (.ok (some t), after)
      | .ok false => .inl after

theorem seekTurn_cases (r s : Relation) (predicate : Expression) (cursor : PairCursor) :
    seekTurn r s predicate cursor = .inr (seek r s predicate cursor) ∨
      ∃ pair after, cursor.advance r.size s.size = some (pair, after) ∧
        seekTurn r s predicate cursor = .inl after ∧
        seek r s predicate after = seek r s predicate cursor := by
  fun_cases seek r s predicate cursor with
  | case1 h => exact .inl (by simp only [seekTurn, h])
  | case2 a b after h _ e hj => exact .inl (by simp only [seekTurn, h, hj])
  | case3 a b after h _ t hj e ht => exact .inl (by simp only [seekTurn, h, hj, ht])
  | case4 a b after h _ t hj ht => exact .inl (by simp only [seekTurn, h, hj, ht])
  | case5 a b after h _ t hj ht =>
    exact .inr ⟨(a, b), after, h, by simp only [seekTurn, h, hj, ht], rfl⟩

/-- A search takes at most one turn for each pair that is left, and one more. -/
theorem within_seek (r s : Relation) (predicate : Expression) (cursor : PairCursor) :
    within (seekTurn r s predicate) ((cursor.rest r.size s.size).length + 1) cursor =
      some (seek r s predicate cursor) := by
  refine within_of_variant (seek r s predicate) (fun c => (c.rest r.size s.size).length) ?_ cursor
  intro cursor
  rcases seekTurn_cases r s predicate cursor with result | ⟨pair, after, advanced, turned, same⟩
  · exact .inl result
  · refine .inr ⟨after, turned, same, ?_⟩
    rw [PairCursor.rest_of_some advanced]
    exact Nat.lt_succ_self _

end ThetaJoin

namespace HashJoin

/-- One turn of a search: past a bucket that has no more rows, past a row into its bucket, or to an
end. -/
def seekTurn (j : HashJoin) (x : Nat × Option LookUp) :
    (Nat × Option LookUp) ⊕ (Except QueryError (Option Tuple) × Nat × Option LookUp) :=
  match x.2 with
  | some l =>
    match j.table.buckets[l.bucket]? with
    | none => .inr (.error (.noBucket l.bucket), x.1, some l)
    | some bucket =>
      match bucket[l.matched]? with
      | some groupedRow =>
        .inr ((j.combine l.row groupedRow).map some, x.1, some { l with matched := l.matched + 1 })
      | none => .inl (x.1, none)
  | none =>
    match j.scanned.1.get? x.1 with
    | none => .inr (.ok none, x.1, none)
    | some t =>
      match t.key j.scanned.2 with
      | .error e => .inr (.error e, x.1, none)
      | .ok key => .inl (x.1 + 1, j.table.numbers[key]?.map fun number => ⟨x.1, number, 0⟩)

/-- Two for each row that is left, and one for a bucket that has been entered. -/
def turnsLeft (j : HashJoin) (x : Nat × Option LookUp) : Nat :=
  2 * (j.scanned.1.size - x.1) + x.2.toList.length

theorem turnsLeft_le (j : HashJoin) (x : Nat × Option LookUp) :
    j.turnsLeft x ≤ 2 * j.scanned.1.size + 1 := by
  have bucket := Option.length_toList_le (o := x.2)
  unfold turnsLeft
  omega

theorem seekTurn_cases (j : HashJoin) (row : Nat) (lookUp : Option LookUp) :
    j.seekTurn (row, lookUp) = .inr (j.seek row lookUp) ∨
      ∃ row' lookUp', j.seekTurn (row, lookUp) = .inl (row', lookUp') ∧
        j.seek row' lookUp' = j.seek row lookUp ∧
        j.turnsLeft (row', lookUp') < j.turnsLeft (row, lookUp) := by
  fun_cases seek j row lookUp with
  | case1 l hb => exact .inl (by simp only [seekTurn, hb])
  | case2 l bucket hb groupedRow hg => exact .inl (by simp only [seekTurn, hb, hg])
  | case3 l bucket hb hg =>
    exact .inr ⟨row, none, by simp only [seekTurn, hb, hg], rfl, Nat.lt_succ_self _⟩
  | case4 h => exact .inl (by simp only [seekTurn, h])
  | case5 t h lt e hk => exact .inl (by simp only [seekTurn, h, hk])
  | case6 t h lt key hk =>
    refine .inr ⟨row + 1, _, by simp only [seekTurn, h, hk], rfl, ?_⟩
    have bucket := Option.length_toList_le
      (o := j.table.numbers[key]?.map fun number => LookUp.mk row number 0)
    unfold turnsLeft
    dsimp only
    omega

theorem within_seek (j : HashJoin) (row : Nat) (lookUp : Option LookUp) :
    within j.seekTurn (j.turnsLeft (row, lookUp) + 1) (row, lookUp) = some (j.seek row lookUp) := by
  refine within_of_variant (fun x : Nat × Option LookUp => j.seek x.1 x.2) j.turnsLeft ?_ (row, lookUp)
  rintro ⟨row, lookUp⟩
  rcases j.seekTurn_cases row lookUp with result | ⟨row', lookUp', turned, same, less⟩
  · exact .inl result
  · exact .inr ⟨_, turned, same, less⟩

end HashJoin

namespace Timeline

variable {σ α : Type}

/-- One turn of a rewind: one step back, or the error at the first item. -/
def rewindTurn (x : Array α × Timeline σ α) :
    (Array α × Timeline σ α) ⊕ Drained (Timeline σ α) (Array α) :=
  match x.2.previous with
  | ⟨.ok a, after⟩ => .inl (x.1.push a, after)
  | ⟨.error e, after⟩ => .inr ⟨x.1, some e, after⟩

theorem within_rewindFrom (items : Array α) (t : Timeline σ α) :
    within rewindTurn (t.ahead + 1) (items, t) = some (rewindFrom items t) := by
  refine within_of_variant (fun x : Array α × Timeline σ α => rewindFrom x.1 x.2)
    (fun x => x.2.ahead) ?_ (items, t)
  rintro ⟨items, t⟩
  fun_cases rewindFrom items t with
  | case1 a after h _ =>
    exact .inr ⟨(items.push a, after), by simp only [rewindTurn, h], rfl, ahead_previous h⟩
  | case2 e after h => exact .inl (by simp only [rewindTurn, h])

end Timeline

/-! ## Whole runs -/

/-- The rows that a run of a source goes through at most: those of a relation, or all pairs of rows. -/
def Source.rowLimit : Source → Nat
  | .scan s => s.relation.size
  | .cross j => j.r.size * j.s.size
  | .theta j => j.r.size * j.s.size
  | .hash j => j.r.size * j.s.size

theorem length_loops_le {α β γ : Type} (as : List α) (bs : List β) (f : α → β → Option γ) :
    (as.flatMap fun a => bs.filterMap (f a)).length ≤ as.length * bs.length := by
  induction as with
  | nil => exact Nat.zero_le _
  | cons a as ih =>
    have first := List.length_filterMap_le (f a) bs
    rw [List.flatMap_cons, List.length_append, List.length_cons, Nat.succ_mul]
    omega

theorem length_combinations (r s : Relation) : (combinations r s).length = r.size * s.size := by
  simp [combinations, List.length_flatMap, Relation.size]

theorem HashJoin.exists_runs {r s : Relation} {keys : List (String × String)} {j : HashJoin}
    (built : ofRelations r s keys = .ok j) :
    ∃ outcomes, Runs j outcomes ∧ outcomes.length ≤ r.size * s.size := by
  obtain ⟨hr, hs, joined, pairs, paired, hl, hk⟩ := paired_of_ofRelations built
  obtain ⟨opened, started, run⟩ := exists_start_hash joined paired hr hs hl hk
  refine ⟨_, ⟨opened, started, run⟩, ?_⟩
  rw [List.length_map]
  have rows (x : Relation) : x.size = x.tuples.toList.length := Array.length_toList.symm
  rw [rows r, rows s]
  split
  · rw [Nat.mul_comm]
    exact length_loops_le ..
  · exact length_loops_le ..

namespace Source

/-- A join that is built runs through the pairs of rows, with an outcome for each at most. -/
theorem exists_runs_of_build {join : Join} {r s : Relation} {source : Source}
    (h : join.build r s = .ok source) :
    ∃ outcomes, Runs source outcomes ∧ outcomes.length ≤ source.rowLimit := by
  cases join with
  | cross =>
    obtain ⟨j, built, rfl⟩ := map_eq_ok h
    obtain ⟨schema, joined, rfl⟩ := CrossJoin.exists_of_ofRelations (mapError_eq_ok built)
    have run := CrossJoin.runs_combinations joined
    refine ⟨_, run.inside (f := cross) (fun _ => rfl) fun _ => rfl, ?_⟩
    rw [List.length_map, length_combinations]
    exact Nat.le_refl _
  | theta predicate =>
    obtain ⟨j, built, rfl⟩ := map_eq_ok h
    obtain ⟨schema, joined, bound, -, rfl⟩ := ThetaJoin.exists_of_ofRelations built
    have run := ThetaJoin.runs_outcomes joined bound
    refine ⟨_, run.inside (f := theta) (fun _ => rfl) fun _ => rfl, ?_⟩
    exact (List.length_filterMap_le ..).trans (PairCursor.length_rest_le PairCursor.inRow_first)
  | hash keys =>
    obtain ⟨j, built, rfl⟩ := map_eq_ok h
    obtain ⟨outcomes, run, length⟩ := HashJoin.exists_runs built
    obtain ⟨rfl, rfl, -⟩ := paired_of_ofRelations built
    exact ⟨outcomes, run.inside (f := hash) (fun _ => rfl) fun _ => rfl, length⟩

end Source

/-- The layers of a pipeline add no outcome to those of the source. -/
theorem Fresh.exists_runs {o : Pipeline Source} (h : Fresh o) :
    ∃ outcomes, Runs o outcomes ∧ outcomes.length ≤ o.base.rowLimit := by
  induction h with
  | scan r =>
    have run := (Scan.runs_rows r).inside (f := Source.scan) (fun _ => rfl) fun _ => rfl
    refine ⟨_, Pipeline.runs_source run, ?_⟩
    rw [List.length_map, Array.length_toList]
    exact Nat.le_refl _
  | join built =>
    obtain ⟨outcomes, run, length⟩ := Source.exists_runs_of_build built
    exact ⟨outcomes, Pipeline.runs_source run, length⟩
  | @project _ _ outputs _ projected ih =>
    obtain ⟨schema, -, rfl⟩ := Pipeline.project_eq_ok projected
    obtain ⟨outcomes, run, length⟩ := ih
    refine ⟨_, Pipeline.runs_projection (p := ⟨_, outputs, schema, .unopened⟩) run, ?_⟩
    rwa [List.length_map]
  | logged _ ih =>
    obtain ⟨outcomes, run, length⟩ := ih
    exact ⟨outcomes, Pipeline.runs_timeline (t := .ofInner _) run, length⟩

theorem nthAnswer_length_of_emits {σ α : Type} [Iterator σ α] {s : σ}
    {outcomes : List (Except QueryError α)} (h : Emits s outcomes) :
    nthAnswer s outcomes.length = .ok none := by
  induction h with
  | done hn => rw [List.length_nil, nthAnswer, hn]
  | item hn _ ih => rwa [List.length_cons, nthAnswer, hn]
  | fail hn _ ih => rwa [List.length_cons, nthAnswer, hn]

/-- However a pipeline has been used, a run of it ends: of the calls of `next` after a start, each of
the first may give an item or an error, but one of the first `N + 1` gives nothing, where `N` is the
number of rows of the relation below or of the pairs of rows of the two relations. So does a fold over
the run, as for `collect`. A search of a join inside one call ends in every state of the join, and
whatever state the timeline of a benchmark is in, counting the rest of its items and rewinding it come
to an end. -/
theorem draining_ends {o : Pipeline Source} (fresh : Fresh o) (history : List Command) :
    (∃ opened, (o.after history).start = ⟨.ok (), opened⟩ ∧
      (∃ n ≤ o.base.rowLimit, nthAnswer opened n = .ok none) ∧
      ∀ (β : Type) (f : β → Tuple → β) (total : β),
        within (foldTurn f) (o.base.rowLimit + 1) (total, opened) = some (foldNext f total opened)) ∧
    (∀ j, (o.after history).base = .theta j →
      within (ThetaJoin.seekTurn j.r j.s j.predicate) (j.r.size * j.s.size + 1) j.cursor =
        some (ThetaJoin.seek j.r j.s j.predicate j.cursor)) ∧
    (∀ j, (o.after history).base = .hash j →
      within j.seekTurn (2 * j.scanned.1.size + 2) (j.row, j.lookUp) =
        some (j.seek j.row j.lookUp)) ∧
    ∀ t : Timeline Source Tuple,
      (∀ n, within (foldTurn fun n _ => n + 1) (FiniteIterator.budget t + 1) (n, t) =
        some (foldNext (fun n _ => n + 1) n t)) ∧
      ∀ items, within Timeline.rewindTurn (t.ahead + 1) (items, t) = some (t.rewindFrom items) := by
  obtain ⟨outcomes, ⟨opened, started, run⟩, length⟩ := fresh.exists_runs
  refine ⟨⟨opened, ?_, ⟨_, length, nthAnswer_length_of_emits run⟩, ?_⟩, ?_, ?_, ?_⟩
  · obtain ⟨state, always⟩ := fresh.exists_start_after
    cases started.symm.trans (always [])
    exact always history
  · intro β f total
    exact within_mono (Nat.succ_le_succ length) (within_foldNext_of_emits run f total)
  · intro j base
    have sound := fresh.sound_after history
    rw [base] at sound
    exact within_mono (Nat.succ_le_succ (PairCursor.length_rest_le sound)) (ThetaJoin.within_seek ..)
  · intro j _
    exact within_mono (Nat.succ_le_succ (j.turnsLeft_le _)) (j.within_seek ..)
  · intro t
    exact ⟨fun n => within_foldNext _ n t, fun items => t.within_rewindFrom items⟩

/-- Quotients by zero are counted: two of six pairs are such, and there is nothing in one of the first
seven calls. One search goes through all pairs in seven turns at most. -/
theorem six_pairs_drained : ∃ (r s : Relation) (p : Expression) (inner : Source)
    (o opened : Pipeline Source), (Join.theta p).build r s = .ok inner ∧
      o = (Pipeline.source inner).logged ∧ o.base.rowLimit = 6 ∧
      (o.after [.start]).start = ⟨.ok (), opened⟩ ∧
      nthAnswer opened 1 = .error (.noArithmetic .divide (.integer 6) (.integer 0)) ∧
      (∃ n ≤ 6, nthAnswer opened n = .ok none) ∧
      ∃ j, (o.after [.start]).base = .theta j ∧ within (ThetaJoin.seekTurn j.r j.s j.predicate) 7
        j.cursor = some (ThetaJoin.seek j.r j.s j.predicate j.cursor) := by
  let r := Relation.ofColumn ⟨"n", .integer⟩ [.integer 2, .integer 0, .integer 3] (by decide)
  let s := Relation.ofColumn ⟨"m", .integer⟩ [.integer 3, .integer 2] (by decide)
  let schema : Schema := .ofDistinct [⟨"n", .integer⟩, ⟨"m", .integer⟩] (by decide)
  let predicate (n m : Expression) : Expression :=
    .binary (.comparison .eq) (.binary (.arithmetic .divide) (.literal (.integer 6)) n) m
  have n : schema.indexOf? "n" = some 0 := Schema.indexOf?_ofDistinct rfl
  have m : schema.indexOf? "m" = some 1 := Schema.indexOf?_ofDistinct rfl
  have bound : (predicate (.column "n") (.column "m")).bind schema =
      .ok (predicate (.bound 0) (.bound 1)) := by
    simp only [predicate, Expression.bind, n, m]
    rfl
  have built : (Join.theta (predicate (.column "n") (.column "m"))).build r s = .ok _ :=
    Join.build_theta_of_bind (Relation.join_ofColumn (by decide)) bound
  obtain ⟨⟨opened, started, ends, -⟩, searches, -⟩ :=
    draining_ends (Fresh.join built).logged [.start]
  have same : _ = opened := congrArg Reply.after started
  refine ⟨r, s, _, _, _, opened, built, rfl, by decide +kernel, started, ?_, ends, _, rfl,
    searches _ rfl⟩
  rw [← same]
  decide +kernel

end PullAlgebra
