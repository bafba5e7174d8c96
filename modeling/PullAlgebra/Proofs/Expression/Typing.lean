import PullAlgebra.Proofs.Expression.Binding
import PullAlgebra.Proofs.Value.Comparison

/-!
# PullAlgebra.Proofs.Expression.Typing

Types of expressions. An expression that has a type can be bound, and then it has on every row of its
schema a value that columns of this type store, unless one of the arithmetic operations in it has no
result. Finite doubles go in and only finite doubles come out, so that comparisons always decide.

* `HasType`: the type of an expression over the columns of a schema.
* `ArithmeticOp.Fails`: when there is no result; `result?_cases` that there is one otherwise.
* `Safe`: a value of the type, or an arithmetic part that fails. Each operation preserves it.
* `HasType.safe`: typed expressions are safe.
-/

namespace PullAlgebra

/-! ## Numbers -/

/-- The types of numbers. -/
def ColumnType.Numeric (type : ColumnType) : Prop := type = .integer ∨ type = .float

namespace ArithmeticOp

/-- The integer that the operation comes to in exact arithmetic; not defined for a zero divisor. -/
def exact : ArithmeticOp → Int → Int → Int
  | add, m, n => m + n
  | subtract, m, n => m - n
  | multiply, m, n => m * n
  | divide, m, n => m.tdiv n

/-- Why two numbers have no result: the integer is out of range, the divisor is zero, or the double
is not finite. -/
inductive Fails : ArithmeticOp → Value → Value → Prop
  | overflow {op : ArithmeticOp} {i j : Int64}
      (range : ¬Integer64.InRange (op.exact i.toInt j.toInt)) : Fails op (.integer i) (.integer j)
  | zeroDivisor {i : Int64} : Fails .divide (.integer i) (.integer 0)
  | notFinite {op : ArithmeticOp} {v w : Value} {x y : Float}
      (doubles : v.numbers? w = some (.floats x y)) (infinite : ¬(op.onFloats x y).isFinite) :
      Fails op v w

theorem onIntegers?_cases (op : ArithmeticOp) (i j : Int64) :
    (∃ k, op.onIntegers? i j = some k) ∨
      op.onIntegers? i j = none ∧ op.Fails (.integer i) (.integer j) := by
  have exact : op.onIntegers? i j = Integer64.ofInt? (op.exact i.toInt j.toInt) ∨
      op.onIntegers? i j = none ∧ op.Fails (.integer i) (.integer j) := by
    cases op with
    | divide =>
      by_cases zero : j = 0
      · subst zero
        exact .inr ⟨by simp [onIntegers?, Integer64.div?], .zeroDivisor⟩
      · exact .inl (if_neg zero)
    | _ => exact .inl rfl
  rcases exact with exact | failed
  · by_cases range : Integer64.InRange (op.exact i.toInt j.toInt)
    · exact .inl ⟨_, exact.trans (Integer64.ofInt?_eq_some range)⟩
    · exact .inr ⟨exact.trans (if_neg range), .overflow range⟩
  · exact .inr failed

end ArithmeticOp

section Numbers

variable {a b : ColumnType} {v w : Value}

/-- Two stored numbers are brought to a common kind: integers if both are, else finite doubles. -/
theorem numbers?_of_stores (na : a.Numeric) (nb : b.Numeric) (hv : a.Stores v) (hw : b.Stores w) :
    (a = .integer ∧ b = .integer ∧ ∃ i j, v = .integer i ∧ w = .integer j) ∨
      ¬(a = .integer ∧ b = .integer) ∧
        ∃ x y, v.numbers? w = some (.floats x y) ∧ x.isFinite ∧ y.isFinite := by
  have rounded (i : Int64) : (Binary64.ofInt i.toInt).isFinite :=
    Binary64.isFinite_ofInt (ColumnType.natAbs_toInt_lt i)
  obtain ⟨rfl, fv⟩ := hv
  obtain ⟨rfl, fw⟩ := hw
  cases v with
  | integer i =>
    cases w with
    | integer j => exact .inl ⟨rfl, rfl, i, j, rfl, rfl⟩
    | float y => exact .inr ⟨nofun, _, _, rfl, rounded i, fw y rfl⟩
    | _ => rcases nb with h | h <;> cases h
  | float x =>
    cases w with
    | integer j => exact .inr ⟨nofun, _, _, rfl, fv x rfl, rounded j⟩
    | float y => exact .inr ⟨nofun, _, _, rfl, fv x rfl, fw y rfl⟩
    | _ => rcases nb with h | h <;> cases h
  | _ => rcases na with h | h <;> cases h

theorem exists_compare?_of_numeric (na : a.Numeric) (nb : b.Numeric) (hv : a.Stores v)
    (hw : b.Stores w) : ∃ o, v.compare? w = some o := by
  rcases numbers?_of_stores na nb hv hw with ⟨-, -, i, j, rfl, rfl⟩ | ⟨-, x, y, doubles, fx, fy⟩
  · exact ⟨_, rfl⟩
  · obtain ⟨o, ho⟩ := Binary64.exists_compare fx fy
    have decided : (v.numbers? w).bind NumberPair.compare? = some o := by
      rw [doubles, Option.bind_some]
      exact (Binary64.compareFloats?_eq x y).trans ho
    refine ⟨o, ?_⟩
    unfold Value.compare?
    split
    · cases doubles
    · cases doubles
    · exact decided

namespace ArithmeticOp

/-- The type of the result of an operation on numbers of two types. -/
def resultType (a b : ColumnType) : ColumnType :=
  if a = .integer ∧ b = .integer then .integer else .float

theorem result?_cases (op : ArithmeticOp) (na : a.Numeric) (nb : b.Numeric) (hv : a.Stores v)
    (hw : b.Stores w) :
    (∃ u, op.result? v w = some u ∧ (resultType a b).Stores u) ∨
      op.result? v w = none ∧ op.Fails v w := by
  rcases numbers?_of_stores na nb hv hw with
    ⟨rfl, rfl, i, j, rfl, rfl⟩ | ⟨mixed, x, y, doubles, -, -⟩
  · rcases op.onIntegers?_cases i j with ⟨k, found⟩ | ⟨none, failed⟩
    · refine .inl ⟨.integer k, ?_, rfl, nofun⟩
      simp only [result?, Value.numbers?, found, Option.map_some]
    · refine .inr ⟨?_, failed⟩
      simp only [result?, Value.numbers?, none, Option.map_none]
  · by_cases finite : (op.onFloats x y).isFinite
    · refine .inl ⟨.float (op.onFloats x y), ?_, ?_⟩
      · simp [result?, doubles, finite]
      · rw [resultType, if_neg mixed]
        refine ⟨rfl, ?_⟩
        rintro z ⟨⟩
        exact finite
    · refine .inr ⟨?_, .notFinite doubles finite⟩
      simp [result?, doubles, finite]

end ArithmeticOp
end Numbers

namespace Expression

/-! ## Typed and safe expressions -/

/-- The type of an expression over the columns of a schema. A column that is given by its position
has none. -/
inductive HasType (s : Schema) : Expression → ColumnType → Prop
  | column {c : Column} (known : c ∈ s.columns) : HasType s (column c.name) c.type
  | literal (v : Value) : HasType s (literal v) v.type
  | arithmetic (op : ArithmeticOp) {p q : Expression} {a b : ColumnType} (left : HasType s p a)
      (right : HasType s q b) (na : a.Numeric) (nb : b.Numeric) :
      HasType s (binary (.arithmetic op) p q) (ArithmeticOp.resultType a b)
  | numbers (op : ComparisonOp) {p q : Expression} {a b : ColumnType} (left : HasType s p a)
      (right : HasType s q b) (na : a.Numeric) (nb : b.Numeric) :
      HasType s (binary (.comparison op) p q) .boolean
  | alike (op : ComparisonOp) {p q : Expression} {a : ColumnType} (left : HasType s p a)
      (right : HasType s q a) : HasType s (binary (.comparison op) p q) .boolean
  | logical (op : LogicalOp) {p q : Expression} (left : HasType s p .boolean)
      (right : HasType s q .boolean) : HasType s (binary (.logical op) p q) .boolean
  | not {p : Expression} (operand : HasType s p .boolean) : HasType s p.not .boolean

/-- All doubles among the literals are finite. -/
def FiniteLiterals (e : Expression) : Prop := ∀ x, literal (.float x) ∈ e.parts → x.isFinite

/-- There is no arithmetic operation in the expression. -/
def ArithmeticFree (e : Expression) : Prop := ∀ op p q, binary (.arithmetic op) p q ∉ e.parts

/-- On the tuple the expression has a value that columns of the type store, or else an arithmetic
part of it fails on the values of its operands and nothing is reported but that. -/
inductive Safe (t : Tuple) (e : Expression) (type : ColumnType) : Prop
  | value {v : Value} (value : e.evaluate t = .ok v) (stored : type.Stores v) : Safe t e type
  | arithmetic {op : ArithmeticOp} {p q : Expression} {v w : Value}
      (part : binary (.arithmetic op) p q ∈ e.parts) (left : p.evaluate t = .ok v)
      (right : q.evaluate t = .ok w) (fails : op.Fails v w)
      (error : e.evaluate t = .error (.noArithmetic op v w)) : Safe t e type

variable {s : Schema} {t : Tuple} {e p q b : Expression} {type a c : ColumnType}

theorem stores_boolean (x : Bool) : ColumnType.boolean.Stores (.boolean x) := by
  refine ⟨rfl, ?_⟩
  rintro _ ⟨⟩

theorem exists_boolean {v : Value} (h : ColumnType.boolean.Stores v) : ∃ b, v = .boolean b := by
  obtain ⟨type, -⟩ := h
  cases v <;> cases type
  exact ⟨_, rfl⟩

/-- An operation on safe operands is safe if it is so on stored values. -/
theorem Safe.binary {op : BinaryOp} (left : Safe t p a) (right : Safe t q c)
    (step : ∀ v w, a.Stores v → c.Stores w →
      (∃ u, op.apply v w = .ok u ∧ type.Stores u) ∨
        ∃ o, op = .arithmetic o ∧ op.apply v w = .error (.noArithmetic o v w) ∧ o.Fails v w) :
    Safe t (.binary op p q) type := by
  cases left with
  | arithmetic part l r fails error =>
    refine .arithmetic (List.mem_cons_of_mem _ (List.mem_append_left _ part)) l r fails ?_
    simp only [evaluate, error]
    rfl
  | value hp vp =>
    cases right with
    | arithmetic part l r fails error =>
      refine .arithmetic (List.mem_cons_of_mem _ (List.mem_append_right _ part)) l r fails ?_
      simp only [evaluate, hp, error]
      rfl
    | value hq vq =>
      have whole : (Expression.binary op p q).evaluate t = op.apply _ _ := evaluate_binary hp hq
      rcases step _ _ vp vq with ⟨u, result, stored⟩ | ⟨o, rfl, result, fails⟩
      · exact .value (whole.trans result) stored
      · exact .arithmetic (self_mem_parts _) hp hq fails (whole.trans result)

theorem Safe.arithmetic_of_numeric (op : ArithmeticOp) (left : Safe t p a) (right : Safe t q c)
    (na : a.Numeric) (nc : c.Numeric) :
    Safe t (.binary (.arithmetic op) p q) (ArithmeticOp.resultType a c) := by
  refine left.binary right ?_
  intro v w hv hw
  rcases op.result?_cases na nc hv hw with ⟨u, result, stored⟩ | ⟨none, fails⟩
  · exact .inl ⟨u, by rw [BinaryOp.apply, result], stored⟩
  · exact .inr ⟨op, rfl, by rw [BinaryOp.apply, none], fails⟩

theorem Safe.comparison (op : ComparisonOp) (left : Safe t p a) (right : Safe t q c)
    (decided : ∀ v w, a.Stores v → c.Stores w → ∃ o, v.compare? w = some o) :
    Safe t (.binary (.comparison op) p q) .boolean := by
  refine left.binary right ?_
  intro v w hv hw
  obtain ⟨o, ho⟩ := decided v w hv hw
  exact .inl ⟨.boolean (op.holds o), by rw [BinaryOp.apply, ho], stores_boolean _⟩

theorem Safe.logical (op : LogicalOp) (left : Safe t p .boolean) (right : Safe t q .boolean) :
    Safe t (.binary (.logical op) p q) .boolean := by
  refine left.binary right ?_
  intro v w hv hw
  obtain ⟨x, rfl⟩ := exists_boolean hv
  obtain ⟨y, rfl⟩ := exists_boolean hw
  exact .inl ⟨.boolean (op.apply x y), rfl, stores_boolean _⟩

theorem Safe.not (operand : Safe t p .boolean) : Safe t p.not .boolean := by
  cases operand with
  | arithmetic part l r fails error =>
    refine .arithmetic (List.mem_cons_of_mem _ part) l r fails ?_
    simp only [evaluate, error]
    rfl
  | value hp stored =>
    obtain ⟨x, rfl⟩ := exists_boolean stored
    exact .value (evaluate_not hp) (stores_boolean _)

theorem names_of_hasType (h : HasType s e type) : ∀ name ∈ e.names, name ∈ s.names := by
  induction h with
  | column known =>
    intro name hn
    rw [List.mem_singleton.1 hn]
    exact List.mem_map_of_mem known
  | literal v => nofun
  | arithmetic _ _ _ _ _ ihl ihr | numbers _ _ _ _ _ ihl ihr | alike _ _ _ ihl ihr
  | logical _ _ _ ihl ihr =>
    intro name hn
    exact (List.mem_append.1 hn).elim (ihl name) (ihr name)
  | not _ ih => exact ih

theorem FiniteLiterals.left {op : BinaryOp} (h : FiniteLiterals (.binary op p q)) :
    p.FiniteLiterals :=
  fun x hx => h x (List.mem_cons_of_mem _ (List.mem_append_left _ hx))

theorem FiniteLiterals.right {op : BinaryOp} (h : FiniteLiterals (.binary op p q)) :
    q.FiniteLiterals :=
  fun x hx => h x (List.mem_cons_of_mem _ (List.mem_append_right _ hx))

/-- The value of a bound column is one that the column stores. -/
theorem safe_of_bind_column {column : Column} (known : column ∈ s.columns)
    (laidOut : t.columns = s.columns) (h : (Expression.column column.name).bind s = .ok b) :
    Safe t b column.type := by
  unfold bind at h
  split at h
  · rename_i i hi
    cases h
    obtain ⟨position, found⟩ := List.getElem?_of_mem known
    obtain ⟨f, hf, rfl⟩ := Tuple.exists_field laidOut found
    -- the index has the position at which the column stands, as names are distinct
    have here : s.indexOf? f.column.name = some position := by
      rw [Schema.indexOf?_eq_some_iff, Schema.names, List.getElem?_map, found, Option.map_some]
    cases hi.symm.trans here
    exact .value (evaluate_bound hf) (t.stored f (List.mem_of_getElem? hf))
  · cases h

theorem HasType.safe (h : HasType s e type) (finite : e.FiniteLiterals)
    (laidOut : t.columns = s.columns) (bound : e.bind s = .ok b) : Safe t b type := by
  induction h generalizing b with
  | column known => exact safe_of_bind_column known laidOut bound
  | literal v =>
    cases bound
    refine .value rfl ⟨rfl, ?_⟩
    rintro x rfl
    exact finite x (self_mem_parts _)
  | arithmetic op _ _ na nb ihl ihr =>
    obtain ⟨p, q, hp, hq, rfl⟩ := binary_of_bind bound
    exact (ihl finite.left hp).arithmetic_of_numeric op (ihr finite.right hq) na nb
  | numbers op _ _ na nb ihl ihr =>
    obtain ⟨p, q, hp, hq, rfl⟩ := binary_of_bind bound
    exact (ihl finite.left hp).comparison op (ihr finite.right hq)
      fun _ _ => exists_compare?_of_numeric na nb
  | alike op _ _ ihl ihr =>
    obtain ⟨p, q, hp, hq, rfl⟩ := binary_of_bind bound
    exact (ihl finite.left hp).comparison op (ihr finite.right hq)
      fun _ _ => Value.exists_compare?
  | logical op _ _ ihl ihr =>
    obtain ⟨p, q, hp, hq, rfl⟩ := binary_of_bind bound
    exact (ihl finite.left hp).logical op (ihr finite.right hq)
  | not _ ih =>
    obtain ⟨p, hp, rfl⟩ := not_of_bind bound
    exact (ih (fun x hx => finite x (List.mem_cons_of_mem _ hx)) hp).not

/-! ## Expressions without arithmetic -/

/-- The parts of a bound expression are bound parts of it. -/
theorem exists_part_of_bind (h : e.bind s = .ok b) (hp : p ∈ b.parts) :
    ∃ q ∈ e.parts, q.bind s = .ok p := by
  induction e generalizing b with
  | column name =>
    unfold bind at h
    split at h <;> cases h
    cases List.mem_singleton.1 hp
    refine ⟨_, self_mem_parts _, ?_⟩
    rw [bind, ‹s.indexOf? name = _›]
  | bound i | literal v =>
    cases h
    cases List.mem_singleton.1 hp
    exact ⟨_, self_mem_parts _, rfl⟩
  | binary op left right ihl ihr =>
    obtain ⟨l, r, hl, hr, rfl⟩ := binary_of_bind h
    rcases List.mem_cons.1 hp with rfl | inner
    · exact ⟨_, self_mem_parts _, h⟩
    · rcases List.mem_append.1 inner with inner | inner
      · obtain ⟨q, hq, bound⟩ := ihl hl inner
        exact ⟨q, List.mem_cons_of_mem _ (List.mem_append_left _ hq), bound⟩
      · obtain ⟨q, hq, bound⟩ := ihr hr inner
        exact ⟨q, List.mem_cons_of_mem _ (List.mem_append_right _ hq), bound⟩
  | not e ih =>
    obtain ⟨c, hc, rfl⟩ := not_of_bind h
    rcases List.mem_cons.1 hp with rfl | inner
    · exact ⟨_, self_mem_parts _, h⟩
    · obtain ⟨q, hq, bound⟩ := ih hc inner
      exact ⟨q, List.mem_cons_of_mem _ hq, bound⟩

theorem ArithmeticFree.bind (free : e.ArithmeticFree) (h : e.bind s = .ok b) :
    b.ArithmeticFree := by
  intro op p q part
  obtain ⟨u, hu, bound⟩ := exists_part_of_bind h part
  cases u with
  | column name =>
    unfold Expression.bind at bound
    split at bound <;> cases bound
  | bound i | literal v => cases bound
  | binary op' left right =>
    obtain ⟨l, r, -, -, same⟩ := binary_of_bind bound
    cases same
    exact free op left right hu
  | not u =>
    obtain ⟨c, -, same⟩ := not_of_bind bound
    cases same

theorem Safe.value_of_arithmeticFree (safe : Safe t e type) (free : e.ArithmeticFree) :
    ∃ v, e.evaluate t = .ok v ∧ type.Stores v := by
  cases safe with
  | value value stored => exact ⟨_, value, stored⟩
  | arithmetic part => exact absurd part (free _ _ _)

theorem test_of_boolean {v : Value} (value : e.evaluate t = .ok v)
    (stored : ColumnType.boolean.Stores v) : ∃ x, e.test t = .ok x := by
  obtain ⟨x, rfl⟩ := exists_boolean stored
  exact ⟨x, by rw [test, value]⟩

end Expression
end PullAlgebra
