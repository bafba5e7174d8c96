import PullAlgebra.Proofs.Expression.Evaluation
import PullAlgebra.Proofs.Value.NumericOrder

/-!
# PullAlgebra.Proofs.Expression.Comparisons

The six comparisons against each other. They all go by one order of two values, so they succeed or
fail together, and to exchange the operands is to exchange less and greater. Only a pair without an
order fails: values of different kinds, or a NaN.

* `Value.compare?_swap`: the order of the exchanged values.
* `Value.Comparable`: the pairs that have an order.
* `ComparisonOp.mirrored`, `ComparisonOp.negated`: the comparison of the exchanged operands, and the
  opposite one.
* `Expression.comparisons_coherent`: the six comparisons of two expressions.
-/

namespace PullAlgebra

namespace Value

variable {v w : Value}

theorem compareFloats?_swap (x y : Float) :
    compareFloats? y x = (compareFloats? x y).map Ordering.swap := by
  rw [Binary64.compareFloats?_eq, Binary64.compareFloats?_eq, Binary64.compare_swap]

theorem compare?_swap (v w : Value) : w.compare? v = (v.compare? w).map Ordering.swap := by
  cases v <;> cases w
  case boolean.boolean | string.string | integer.integer =>
    exact congrArg some Std.OrientedOrd.eq_swap
  case integer.float | float.integer | float.float => exact compareFloats?_swap _ _
  all_goals rfl

/-- Values with an order: two booleans, two strings, or two numbers of any kind. -/
inductive Comparable : Value → Value → Prop
  | booleans (a b : Bool) : Comparable (boolean a) (boolean b)
  | strings (a b : String) : Comparable (string a) (string b)
  | numbers {v w : Value} (left : v.IsNumber) (right : w.IsNumber) : Comparable v w

theorem isNumber_of_compareFloats? {x y : Float} {o : Ordering} (h : compareFloats? x y = some o) :
    ¬x.isNaN ∧ ¬y.isNaN := by
  rw [Binary64.compareFloats?_eq] at h
  rw [Binary64.number_iff, Binary64.number_iff]
  constructor
  · intro nan
    rw [nan] at h
    cases h
  · intro nan
    rw [nan, Binary64.compare_swap] at h
    cases h

theorem comparable_of_compare? {o : Ordering} (h : v.compare? w = some o) : Comparable v w := by
  cases v <;> cases w
  case boolean.boolean => exact .booleans _ _
  case string.string => exact .strings _ _
  case integer.integer => exact .numbers trivial trivial
  case integer.float => exact .numbers trivial (isNumber_of_compareFloats? h).2
  case float.integer => exact .numbers (isNumber_of_compareFloats? h).1 trivial
  case float.float =>
    exact .numbers (isNumber_of_compareFloats? h).1 (isNumber_of_compareFloats? h).2
  all_goals cases h

theorem exists_compare?_iff : (∃ o, v.compare? w = some o) ↔ Comparable v w := by
  constructor
  · rintro ⟨o, ordered⟩
    exact comparable_of_compare? ordered
  · rintro (⟨a, b⟩ | ⟨a, b⟩ | ⟨left, right⟩)
    · exact ⟨_, rfl⟩
    · exact ⟨_, rfl⟩
    · rcases compare?_cases left right with ⟨i, j, -, -, ordered⟩ | ⟨-, ordered⟩
      · exact ⟨_, ordered⟩
      · exact ⟨_, ordered⟩

end Value

namespace ComparisonOp

/-- The comparison that says of the exchanged operands what this one says. -/
def mirrored : ComparisonOp → ComparisonOp
  | eq => eq
  | notEq => notEq
  | lt => gt
  | ltEq => gtEq
  | gt => lt
  | gtEq => ltEq

/-- The comparison that says the opposite of the same operands. -/
def negated : ComparisonOp → ComparisonOp
  | eq => notEq
  | notEq => eq
  | lt => gtEq
  | ltEq => gt
  | gt => ltEq
  | gtEq => lt

theorem holds_mirrored (op : ComparisonOp) (o : Ordering) :
    op.mirrored.holds o.swap = op.holds o := by
  cases op <;> cases o <;> rfl

theorem holds_negated (op : ComparisonOp) (o : Ordering) : op.negated.holds o = !op.holds o := by
  cases op <;> cases o <;> rfl

/-- Of less, equal and greater every order has one. -/
theorem count_holds (o : Ordering) :
    [lt.holds o, eq.holds o, gt.holds o].count true = 1 := by
  cases o <;> rfl

end ComparisonOp

namespace Expression

variable {t : Tuple} {a b : Expression} {v w : Value}

/-- The expression that compares two others. -/
def compared (op : ComparisonOp) (a b : Expression) : Expression := binary (.comparison op) a b

theorem evaluate_compared_of_order (ha : a.evaluate t = .ok v) (hb : b.evaluate t = .ok w)
    {o : Ordering} (ordered : v.compare? w = some o) (op : ComparisonOp) :
    (compared op a b).evaluate t = .ok (.boolean (op.holds o)) := by
  rw [compared, evaluate_binary ha hb, BinaryOp.apply, ordered]

theorem evaluate_compared_of_none (ha : a.evaluate t = .ok v) (hb : b.evaluate t = .ok w)
    (none : v.compare? w = none) (op : ComparisonOp) :
    (compared op a b).evaluate t = .error (.noComparison v w) := by
  rw [compared, evaluate_binary ha hb, BinaryOp.apply, none]

theorem evaluate_compared_of_left {e : QueryError} (ha : a.evaluate t = .error e)
    (op : ComparisonOp) : (compared op a b).evaluate t = .error e := by
  simp only [compared, evaluate, ha]
  rfl

theorem evaluate_compared_of_right {e : QueryError} (ha : a.evaluate t = .ok v)
    (hb : b.evaluate t = .error e) (op : ComparisonOp) :
    (compared op a b).evaluate t = .error e := by
  simp only [compared, evaluate, ha, hb]
  rfl

/-- Two expressions are compared by the order of their values, or there is one error for all six
comparisons. -/
theorem compared_cases (a b : Expression) (t : Tuple) :
    (∃ v w o, a.evaluate t = .ok v ∧ b.evaluate t = .ok w ∧ v.compare? w = some o) ∨
      (∀ v w, a.evaluate t = .ok v → b.evaluate t = .ok w → v.compare? w = none) ∧
        ∃ e, ∀ op, (compared op a b).evaluate t = .error e := by
  cases ha : a.evaluate t with
  | error e => exact .inr ⟨nofun, e, evaluate_compared_of_left ha⟩
  | ok v =>
    cases hb : b.evaluate t with
    | error e => exact .inr ⟨nofun, e, evaluate_compared_of_right ha hb⟩
    | ok w =>
      cases ordered : v.compare? w with
      | none =>
        refine .inr ⟨?_, _, evaluate_compared_of_none ha hb ordered⟩
        rintro _ _ ⟨⟩ ⟨⟩
        exact ordered
      | some o => exact .inl ⟨v, w, o, rfl, rfl, ordered⟩

/-- The six comparisons of two expressions, and those of the exchanged expressions, all fail or all
succeed. If they succeed, just one of less, equal and greater holds, each comparison is the opposite
of its negation, and it says what the mirrored one says of the exchanged expressions. They succeed
if and only if both expressions have values and these are comparable. -/
theorem comparisons_coherent (a b : Expression) (t : Tuple) :
    ((∃ e e', ∀ op, (compared op a b).evaluate t = .error e ∧
        (compared op b a).evaluate t = .error e') ∨
      ∃ value : ComparisonOp → Bool,
        (∀ op, (compared op a b).evaluate t = .ok (.boolean (value op)) ∧
          (compared op.mirrored b a).evaluate t = .ok (.boolean (value op))) ∧
        [value .lt, value .eq, value .gt].count true = 1 ∧
        ∀ op, value op.negated = !value op) ∧
    ∀ op, (∃ x, (compared op a b).evaluate t = .ok x) ↔
      ∃ v w, a.evaluate t = .ok v ∧ b.evaluate t = .ok w ∧ v.Comparable w := by
  rcases compared_cases a b t with ⟨v, w, o, ha, hb, ordered⟩ | ⟨unordered, e, failed⟩
  · have exchanged : w.compare? v = some o.swap := by
      rw [Value.compare?_swap, ordered, Option.map_some]
    constructor
    · refine .inr ⟨fun op => op.holds o, ?_, ComparisonOp.count_holds o, ?_⟩
      · intro op
        refine ⟨evaluate_compared_of_order ha hb ordered op, ?_⟩
        rw [evaluate_compared_of_order hb ha exchanged, ComparisonOp.holds_mirrored]
      · intro op
        exact op.holds_negated o
    · intro op
      have succeeds := evaluate_compared_of_order ha hb ordered op
      exact ⟨fun _ => ⟨v, w, ha, hb, Value.exists_compare?_iff.1 ⟨o, ordered⟩⟩, fun _ => ⟨_, succeeds⟩⟩
  · have incomparable : ∀ v w, a.evaluate t = .ok v → b.evaluate t = .ok w → ¬v.Comparable w := by
      intro v w ha hb comparable
      obtain ⟨o, ordered⟩ := Value.exists_compare?_iff.2 comparable
      cases ordered.symm.trans (unordered v w ha hb)
    constructor
    · rcases compared_cases b a t with ⟨w, v, o, hb, ha, ordered⟩ | ⟨-, e', failed'⟩
      · exact absurd (Value.exists_compare?_iff.1 ⟨_, by rw [Value.compare?_swap, ordered]; rfl⟩)
          (incomparable v w ha hb)
      · exact .inl ⟨e, e', fun op => ⟨failed op, failed' op⟩⟩
    · intro op
      constructor
      · rintro ⟨x, succeeds⟩
        cases (failed op).symm.trans succeeds
      · rintro ⟨v, w, ha, hb, comparable⟩
        exact absurd comparable (incomparable v w ha hb)

end Expression
end PullAlgebra
