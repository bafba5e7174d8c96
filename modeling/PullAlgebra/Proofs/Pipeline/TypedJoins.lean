import PullAlgebra.Proofs.Expression.Typing
import PullAlgebra.Proofs.Pipeline.Joins

/-!
# PullAlgebra.Proofs.Pipeline.TypedJoins

Joins by typed predicates. What a join reports is a call outside of a run or a failure of its
predicate, and a typed predicate without arithmetic has no failures.

* `error_after`: where the errors of a join come from, after whatever calls.
* `predicate_decides`: a predicate that is decided on all rows of the joined schema does not fail.
* `typed_evaluation_is_safe`: typed expressions by themselves and as predicates.
-/

namespace PullAlgebra

open Pipeline Expression

section Joins

variable {join : Join} {r s : Relation} {o : Source}

/-- A call on a join that fails was made outside of a run, or else a predicate failed. -/
theorem error_after (built : join.build r s = .ok o) (history : List Command) (c : Command)
    {err : QueryError} (failed : (((source o).after history).perform c).result = .error err) :
    (∃ operator phase, phase.isOpen = false ∧ err = .invalidState operator .next phase) ∨
      ∃ u : Source, u.reset = o ∧ u.PredicateFails err := by
  have fresh := Fresh.join built
  obtain ⟨u, reached, same⟩ := exists_source_after built history
  have sound : u.Sound := by
    have := fresh.sound_after history
    rwa [reached] at this
  cases c with
  | start =>
    obtain ⟨state, started⟩ := fresh.exists_start_after
    rw [perform, started] at failed
    cases failed
  | next =>
    rw [reached] at failed
    rcases Source.error_of_next sound failed with ⟨notOpen, rfl⟩ | ⟨-, failed⟩
    · exact .inl ⟨_, _, notOpen, rfl⟩
    · exact .inr ⟨u, same, failed⟩
  | close => cases failed
  | previous =>
    rw [reached] at failed
    cases failed

end Joins

/-- A theta join whose predicate is decided on every row of the joined schema does not fail on
one. -/
theorem predicate_decides {j : ThetaJoin}
    (decided : ∀ t : Tuple, t.columns = j.schema.columns → ∃ x, j.predicate.test t = .ok x)
    {u : Source} (same : u.reset = .theta j.reset) (err : QueryError) : ¬u.PredicateFails err := by
  intro failed
  cases u with
  | theta k =>
    obtain ⟨t, ht, u, hu, v, joined, failed⟩ := failed
    have schemas := Schema.columns_of_join k.joined
    have laidOut : v.columns = k.schema.columns := by
      rw [Tuple.columns_of_join joined, k.r.aligned t ht, k.s.aligned u hu, schemas]
    have kept : k.reset = j.reset := Source.theta.inj same
    have schema : k.schema = j.schema := by
      change k.reset.schema = j.reset.schema
      rw [kept]
    have predicate : k.predicate = j.predicate := by
      change k.reset.predicate = j.reset.predicate
      rw [kept]
    rw [schema] at laidOut
    obtain ⟨x, passed⟩ := decided v laidOut
    rw [predicate] at failed
    cases passed.symm.trans failed
  | _ => exact failed

/-- An expression that has a type over the columns of a schema, with finite doubles for literals, can
be bound to it. On every row of the schema it has a value of this type, finite if it is a double, or
an arithmetic operation in it has no result and is reported with its operands. Without arithmetic it
always has a value. A theta join by a boolean one can then be built, and after whatever calls it
reports nothing but calls outside of a run; within a run no call fails. -/
theorem typed_evaluation_is_safe {s : Schema} {e : Expression} {type : ColumnType}
    (typed : HasType s e type) (finite : e.FiniteLiterals) :
    ∃ b, e.bind s = .ok b ∧
      (∀ t : Tuple, t.columns = s.columns →
        (∃ v, b.evaluate t = .ok v ∧ type.Stores v) ∨
          ∃ op p q v w, binary (.arithmetic op) p q ∈ b.parts ∧ p.evaluate t = .ok v ∧
            q.evaluate t = .ok w ∧ op.Fails v w ∧ b.evaluate t = .error (.noArithmetic op v w)) ∧
      (e.ArithmeticFree →
        (∀ t : Tuple, t.columns = s.columns → ∃ v, b.evaluate t = .ok v ∧ type.Stores v) ∧
        (type = .boolean → ∀ r r' : Relation, r.schema.join r'.schema = .ok s →
          ∃ o, (Join.theta e).build r r' = .ok o ∧ ∀ history,
            (∀ c err, (((source o).after history).perform c).result = .error err →
              ∃ operator phase, phase.isOpen = false ∧ err = .invalidState operator .next phase) ∧
            ∀ since c, .close ∉ since → ∃ answer,
              (((source o).after (history ++ .start :: since)).perform c).result = .ok answer)) := by
  obtain ⟨b, bound⟩ := exists_bind (names_of_hasType typed)
  refine ⟨b, bound, ?_, ?_⟩
  · intro t laidOut
    cases typed.safe finite laidOut bound with
    | value value stored => exact .inl ⟨_, value, stored⟩
    | arithmetic part left right fails error =>
      exact .inr ⟨_, _, _, _, _, part, left, right, fails, error⟩
  · intro free
    have values : ∀ t : Tuple, t.columns = s.columns → ∃ v, b.evaluate t = .ok v ∧ type.Stores v :=
      fun t laidOut => (typed.safe finite laidOut bound).value_of_arithmeticFree (free.bind bound)
    refine ⟨values, ?_⟩
    rintro rfl r r' joined
    have built := Join.build_theta_of_bind joined bound
    let j : ThetaJoin := ⟨r, r', s, joined, b, .first, .unopened⟩
    have decided : ∀ t : Tuple, t.columns = j.schema.columns → ∃ x, j.predicate.test t = .ok x := by
      intro t laidOut
      obtain ⟨v, value, stored⟩ := values t laidOut
      exact test_of_boolean value stored
    refine ⟨_, built, fun history => ⟨?_, ?_⟩⟩
    · intro c err failed
      rcases error_after built history c failed with outside | ⟨u, same, failed⟩
      · exact outside
      · exact absurd failed (predicate_decides decided same err)
    · intro since c notClosed
      rcases answers_in_run built history notClosed c with answered | ⟨u, err, same, failed⟩
      · exact answered
      · exact absurd failed (predicate_decides decided same err)

/-- A quotient that is compared with a double fails for a zero divisor only, and the comparison of an
integer column with a double column joins two relations without a failure. -/
theorem typed_quotient_and_join :
    ∃ (s : Schema) (e f b : Expression) (t u : Tuple) (r r' : Relation) (o : Source),
      HasType s e .boolean ∧ e.bind s = .ok b ∧ t.columns = s.columns ∧ u.columns = s.columns ∧
      t.values = [.integer 7, .float 2.5] ∧ u.values = [.integer 7, .float 0] ∧
      b.evaluate t = .ok (.boolean true) ∧
      b.evaluate u = .error (.noArithmetic .divide (.integer 7) (.float 0)) ∧
      HasType s f .boolean ∧ f.ArithmeticFree ∧ (Join.theta f).build r r' = .ok o ∧
      ∃ answer, (((source o).after [.close, .start, .next]).perform .next).result = .ok answer := by
  let n : Column := ⟨"n", .integer⟩
  let x : Column := ⟨"x", .float⟩
  let r := Relation.ofColumn n [.integer 7, .integer 8] (by decide)
  let r' := Relation.ofColumn x [.float 7.5] (by decide +kernel)
  let s : Schema := .ofDistinct [n, x] (by decide)
  have columns : s.columns = [n, x] := Schema.columns_ofDistinct _
  have joined : r.schema.join r'.schema = .ok s := Relation.join_ofColumn (by decide)
  have left : HasType s (column n.name) n.type := .column (by simp [columns])
  have right : HasType s (column x.name) x.type := .column (by simp [columns])
  let e := binary (.comparison .lt) (binary (.arithmetic .divide) (column "n") (column "x"))
    (literal (.float 2.9))
  let f := binary (.comparison .lt) (column "n") (column "x")
  have quotient : HasType s e .boolean :=
    .numbers .lt (.arithmetic .divide left right (.inl rfl) (.inr rfl)) (.literal _) (.inr rfl)
      (.inr rfl)
  have comparison : HasType s f .boolean := .numbers .lt left right (.inl rfl) (.inr rfl)
  have finite : e.FiniteLiterals := by
    intro y hy
    obtain rfl : y = 2.9 := by simpa [e, parts] using hy
    decide +kernel
  have free : f.ArithmeticFree := by simp [ArithmeticFree, f, parts]
  have hn : s.indexOf? "n" = some 0 := Schema.indexOf?_ofDistinct rfl
  have hx : s.indexOf? "x" = some 1 := Schema.indexOf?_ofDistinct rfl
  have position : e.bind s = .ok (binary (.comparison .lt)
      (binary (.arithmetic .divide) (bound 0) (bound 1)) (literal (.float 2.9))) := by
    simp only [e, Expression.bind, hn, hx]
    rfl
  obtain ⟨b, bound, -⟩ := typed_evaluation_is_safe quotient finite
  obtain ⟨_, -, -, decided⟩ := typed_evaluation_is_safe comparison (by simp [FiniteLiterals, f, parts])
  obtain ⟨o, built, runs⟩ := (decided free).2 rfl r r' joined
  cases bound.symm.trans position
  let row (y : Float) (hy : y.isFinite) : Tuple :=
    ⟨[⟨n, .integer 7⟩, ⟨x, .float y⟩], by simp [Field.name, n, x], by
      simp [Field.Stored, ColumnType.Stores, Value.type, n, x, hy]⟩
  refine ⟨s, e, f, _, row 2.5 (by decide +kernel), row 0 (by decide +kernel), r, r', o, quotient, bound,
    columns.symm, columns.symm, rfl, rfl, by decide +kernel,
    by decide +kernel, comparison, free, built,
    (runs [.close]).2 [.next] .next (by decide)⟩

end PullAlgebra
