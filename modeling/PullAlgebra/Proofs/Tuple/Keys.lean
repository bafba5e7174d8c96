import PullAlgebra.Proofs.Expression.Comparisons
import PullAlgebra.Proofs.Expression.Formulas
import PullAlgebra.Proofs.Relation.OneColumn

/-!
# PullAlgebra.Proofs.Tuple.Keys

Hash keys against comparison. Where rows are looked up, one equality of keys decides whether they
match; where a predicate is tested, a conjunction of equalities does. On values that columns of the
same types store, both say what the comparison of the values says: no two values make one part of a
key without comparing as equal, and none that do are kept apart, the two zeros included.

* `Value.Alike`: two values that columns of one type store; these always compare.
* `Tuple.key_of_values`: the key of a tuple, from its values in the key columns.
* `Expression.ConjunctionOf`: a conjunction in any grouping, and `ConjunctionOf.evaluate` its value.
* `equal_keys_compare_equal`: lists of values by their keys, by comparison and by conjunction.
-/

namespace PullAlgebra

namespace Value

/-- Values that columns of one type store. By `Tuple.stored`, the values that two tuples have under
columns of the same type are such. -/
def Alike (v w : Value) : Prop := ∃ type : ColumnType, type.Stores v ∧ type.Stores w

/-- Lists of values of equal length that compare as equal, entry by entry. -/
def AllEqual (vs ws : List Value) : Prop :=
  List.Forall₂ (fun v w => v.compare? w = some .eq) vs ws

variable {vs ws : List Value}

theorem map_ofValue_eq_iff (alike : List.Forall₂ Alike vs ws) :
    vs.map KeyAtom.ofValue = ws.map KeyAtom.ofValue ↔ AllEqual vs ws := by
  rw [map_eq_map_iff_forall₂, AllEqual]
  induction alike with
  | nil => exact ⟨fun _ => .nil, fun _ => .nil⟩
  | cons first _ ih =>
    obtain ⟨type, hv, hw⟩ := first
    rw [List.forall₂_cons, List.forall₂_cons, ih, KeyAtom.ofValue_eq_iff hv hw]

end Value

/-- The tuple has the values at the positions. -/
def Tuple.HasAt (t : Tuple) (columns : List Nat) (vs : List Value) : Prop :=
  List.Forall₂ (fun i v => t.fields[i]?.map Field.value = some v) columns vs

theorem Tuple.key_of_values {t : Tuple} {columns : List Nat} {vs : List Value}
    (h : t.HasAt columns vs) : t.key columns = .ok (vs.map KeyAtom.ofValue) := by
  refine mapM_eq_ok_of_forall₂ ?_
  rw [List.forall₂_map_right_iff]
  refine h.imp fun i v hv => ?_
  obtain ⟨f, hf, rfl⟩ := Option.map_eq_some_iff.1 hv
  rw [hf]

namespace Expression

/-- The expression is the conjunction of the others in their order, grouped in some way. That of
none is true. -/
inductive ConjunctionOf : List Expression → Expression → Prop
  | none : ConjunctionOf [] (literal (.boolean true))
  | one (e : Expression) : ConjunctionOf [e] e
  | both {es fs : List Expression} {p q : Expression} (left : ConjunctionOf es p)
      (right : ConjunctionOf fs q) : ConjunctionOf (es ++ fs) (binary (.logical .and) p q)

variable {t : Tuple} {es ps qs : List Expression} {e : Expression}

theorem ConjunctionOf.evaluate (h : ConjunctionOf es e) {value : Expression → Bool}
    (values : ∀ p ∈ es, p.evaluate t = .ok (.boolean (value p))) :
    e.evaluate t = .ok (.boolean (es.all value)) := by
  induction h with
  | none => rfl
  | one p =>
    rw [List.all_cons, List.all_nil, Bool.and_true]
    exact values p (List.mem_singleton_self p)
  | both _ _ ihl ihr =>
    have left := ihl fun p hp => values p (List.mem_append_left _ hp)
    have right := ihr fun p hp => values p (List.mem_append_right _ hp)
    rw [List.all_append]
    exact evaluate_binary left right

/-- The equalities of the entries of two lists. -/
def equalities (ps qs : List Expression) : List Expression := List.zipWith (compared .eq) ps qs

/-- The equalities have truth values, and all of them are true if the values compare as equal. -/
theorem reading_equalities {vs ws : List Value} (alike : List.Forall₂ Value.Alike vs ws)
    (left : List.Forall₂ (fun p v => p.evaluate t = .ok v) ps vs)
    (right : List.Forall₂ (fun q w => q.evaluate t = .ok w) qs ws) :
    (∀ p ∈ equalities ps qs, p.evaluate t = .ok (.boolean (p.reading t))) ∧
      ((equalities ps qs).all (reading t) ↔ Value.AllEqual vs ws) := by
  induction alike generalizing ps qs with
  | nil =>
    cases left
    cases right
    exact ⟨nofun, fun _ => .nil, fun _ => rfl⟩
  | @cons v w vs ws first _ ih =>
    obtain ⟨p, ps, hp, hps, rfl⟩ := List.forall₂_cons_right_iff.1 left
    obtain ⟨q, qs, hq, hqs, rfl⟩ := List.forall₂_cons_right_iff.1 right
    obtain ⟨readings, all⟩ := ih hps hqs
    obtain ⟨type, hv, hw⟩ := first
    obtain ⟨o, ordered⟩ := Value.exists_compare? hv hw
    have value := evaluate_compared_of_order hp hq ordered .eq
    have read : (compared .eq p q).reading t = (o == .eq) := by
      rw [reading, test_eq_ok_iff.2 value]
      rfl
    constructor
    · exact List.forall_mem_cons.2 ⟨evaluate_reading value, readings⟩
    · unfold equalities at all ⊢
      rw [List.zipWith_cons_cons, List.all_cons, Bool.and_eq_true, read, all, Value.AllEqual,
        Value.AllEqual, List.forall₂_cons, ordered, beq_iff_eq, Option.some.injEq]

end Expression

open Expression in
/-- Two lists of values of the same column types, entry by entry. All entries compare, and the parts
of a key that they make are the same exactly if all compare as equal. These are the keys of tuples
that have the values in their key columns. A conjunction of the equalities, of whatever expressions
with these values and in whatever grouping, has a truth value, and it is true in the same case. -/
theorem equal_keys_compare_equal {vs ws : List Value} (alike : List.Forall₂ Value.Alike vs ws) :
    List.Forall₂ (fun v w => ∃ o, v.compare? w = some o) vs ws ∧
    (vs.map KeyAtom.ofValue = ws.map KeyAtom.ofValue ↔ Value.AllEqual vs ws) ∧
    (∀ (t u : Tuple) (left right : List Nat), t.HasAt left vs → u.HasAt right ws →
      t.key left = .ok (vs.map KeyAtom.ofValue) ∧ u.key right = .ok (ws.map KeyAtom.ofValue)) ∧
    ∀ (t : Tuple) (ps qs : List Expression) (e : Expression),
      List.Forall₂ (fun p v => p.evaluate t = .ok v) ps vs →
      List.Forall₂ (fun q w => q.evaluate t = .ok w) qs ws → ConjunctionOf (equalities ps qs) e →
      ∃ b, e.evaluate t = .ok (.boolean b) ∧ (b = true ↔ Value.AllEqual vs ws) := by
  refine ⟨?_, Value.map_ofValue_eq_iff alike, ?_, ?_⟩
  · refine alike.imp fun v w h => ?_
    obtain ⟨type, hv, hw⟩ := h
    exact Value.exists_compare? hv hw
  · intro t u left right ht hu
    exact ⟨Tuple.key_of_values ht, Tuple.key_of_values hu⟩
  · intro t ps qs e hp hq conjunction
    obtain ⟨readings, all⟩ := reading_equalities alike hp hq
    exact ⟨_, conjunction.evaluate readings, all⟩

open Expression in
/-- The key columns of two tuples at different positions, with zeros of different sign. They make one
key. It is another one when the integer is less by one, though the double nearest to it is the same. -/
theorem keys_beyond_doubles :
    ∃ (t u : Tuple) (e : Expression) (vs ws xs : List Value),
      vs = [.float (-0.0), .integer 9007199254740993] ∧
      ws = [.float 0.0, .integer 9007199254740993] ∧ xs = [.float 0.0, .integer 9007199254740992] ∧
      List.Forall₂ Value.Alike vs ws ∧ List.Forall₂ Value.Alike vs xs ∧
      t.HasAt [0, 1] vs ∧ u.HasAt [1, 0] ws ∧ t.key [0, 1] = u.key [1, 0] ∧
      ConjunctionOf (equalities [.bound 0, .bound 1] (ws.map .literal)) e ∧
      e.evaluate t = .ok (.boolean true) ∧
      vs.map KeyAtom.ofValue ≠ xs.map KeyAtom.ofValue := by
  let vs : List Value := [.float (-0.0), .integer 9007199254740993]
  let ws : List Value := [.float 0.0, .integer 9007199254740993]
  let xs : List Value := [.float 0.0, .integer 9007199254740992]
  have negative : ColumnType.float.Stores (.float (-0.0)) := by decide
  have positive : ColumnType.float.Stores (.float 0.0) := by decide
  have integer (i : Int64) : ColumnType.integer.Stores (.integer i) := ⟨rfl, fun _ h => by cases h⟩
  let t : Tuple :=
    ⟨[⟨⟨"x", .float⟩, .float (-0.0)⟩, ⟨⟨"n", .integer⟩, .integer 9007199254740993⟩], by decide,
      List.forall_mem_cons.2 ⟨negative, List.forall_mem_singleton.2 (integer _)⟩⟩
  let u : Tuple :=
    ⟨[⟨⟨"n", .integer⟩, .integer 9007199254740993⟩, ⟨⟨"x", .float⟩, .float 0.0⟩], by decide,
      List.forall_mem_cons.2 ⟨integer _, List.forall_mem_singleton.2 positive⟩⟩
  let e : Expression := .binary (.logical .and) (compared .eq (.bound 0) (.literal (.float 0.0)))
    (compared .eq (.bound 1) (.literal (.integer 9007199254740993)))
  have zeros : Value.Alike (.float (-0.0)) (.float 0.0) := ⟨.float, negative, positive⟩
  have alike : List.Forall₂ Value.Alike vs ws :=
    .cons zeros (.cons ⟨.integer, integer _, integer _⟩ .nil)
  have unlike : List.Forall₂ Value.Alike vs xs :=
    .cons zeros (.cons ⟨.integer, integer _, integer _⟩ .nil)
  have ht : t.HasAt [0, 1] vs := .cons rfl (.cons rfl .nil)
  have hu : u.HasAt [1, 0] ws := .cons rfl (.cons rfl .nil)
  have conjunction : ConjunctionOf (equalities [.bound 0, .bound 1] (ws.map .literal)) e :=
    .both (.one _) (.one _)
  have equal : Value.AllEqual vs ws := .cons rfl (.cons rfl .nil)
  obtain ⟨-, agree, keys, predicate⟩ := equal_keys_compare_equal alike
  obtain ⟨-, differ, -, -⟩ := equal_keys_compare_equal unlike
  refine ⟨t, u, e, vs, ws, xs, rfl, rfl, rfl, alike, unlike, ht, hu, ?_, conjunction, ?_, ?_⟩
  · obtain ⟨left, right⟩ := keys t u _ _ ht hu
    rw [left, right, agree.2 equal]
  · obtain ⟨b, value, known⟩ := predicate t _ _ e (.cons rfl (.cons rfl .nil))
      (.cons rfl (.cons rfl .nil)) conjunction
    rwa [known.2 equal] at value
  · rw [Ne, differ]
    intro same
    exact absurd (List.forall₂_cons.1 (List.forall₂_cons.1 same).2).1 (by decide)

end PullAlgebra
