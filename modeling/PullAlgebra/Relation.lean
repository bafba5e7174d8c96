import PullAlgebra.Reply
import PullAlgebra.Tuple

/-!
# PullAlgebra.Relation

Tables that only grow: tuples in the order in which they came, all with exactly the columns of the
table's schema, in its order.

* `ofTuples`: a relation from tuples, each brought into the order of the schema; the first that does
  not fit is refused.
* `push`, `pushTexts`: one more tuple, ready-made or from the texts of its values. Both answer with
  the relation after the call, also when they fail.
-/

namespace PullAlgebra

structure Relation where
  schema : Schema
  tuples : Array Tuple
  aligned : ∀ t ∈ tuples, t.columns = schema.columns

namespace Relation

def empty (schema : Schema) : Relation := ⟨schema, #[], by simp⟩

theorem exists_of_mapM_eq_ok {α β ε : Type} {f : α → Except ε β} {as : List α} {bs : List β}
    (h : as.mapM f = .ok bs) : ∀ b ∈ bs, ∃ a ∈ as, f a = .ok b := by
  induction as generalizing bs with
  | nil => cases h; simp
  | cons a as ih =>
    rw [List.mapM_cons] at h
    cases ha : f a with
    | error e => rw [ha] at h; cases h
    | ok b =>
      cases hr : as.mapM f with
      | error e => rw [ha, hr] at h; cases h
      | ok rest =>
        rw [ha, hr] at h
        cases h
        intro x hx
        rcases List.mem_cons.1 hx with rfl | hx
        · exact ⟨a, List.mem_cons_self .., ha⟩
        · obtain ⟨y, hy, e⟩ := ih hr x hx
          exact ⟨y, List.mem_cons_of_mem _ hy, e⟩

theorem columns_of_mapM_alignTo {schema : Schema} {ts us : List Tuple}
    (h : (ts.mapM fun t => t.alignTo schema) = .ok us) : ∀ u ∈ us, u.columns = schema.columns := by
  intro u hu
  obtain ⟨t, -, ht⟩ := exists_of_mapM_eq_ok h u hu
  exact Tuple.columns_of_alignTo ht

def ofTuples (schema : Schema) (tuples : List Tuple) : Except TableError Relation :=
  match h : tuples.mapM fun t => t.alignTo schema with
  | .ok ordered =>
    .ok ⟨schema, ordered.toArray, fun t ht => columns_of_mapM_alignTo h t (by simpa using ht)⟩
  | .error e => .error e

def size (r : Relation) : Nat := r.tuples.size

def isEmpty (r : Relation) : Bool := r.tuples.isEmpty

def get? (r : Relation) (i : Nat) : Option Tuple := r.tuples[i]?

/-- Adds one more tuple at the end. -/
def push (r : Relation) (t : Tuple) : Reply Relation Unit TableError :=
  match h : t.alignTo r.schema with
  | .ok u =>
    ⟨.ok (), ⟨r.schema, r.tuples.push u, fun x hx =>
      (Array.mem_push.1 hx).elim (r.aligned x) fun e => e ▸ Tuple.columns_of_alignTo h⟩⟩
  | .error e => ⟨.error e, r⟩

/-- The field that a text gives under one of the relation's columns. -/
def readField (r : Relation) (name text : String) : Except TableError Field :=
  match r.schema.column? name with
  | none => .error (.unknownColumn name)
  | some column => (column.type.parse text).map fun value => ⟨column, value⟩

/-- The tuple of a row that is given as column names and the texts of their values. -/
def readRow (r : Relation) (row : List (String × String)) : Except TableError Tuple := do
  Tuple.ofFields (← row.mapM fun (name, text) => r.readField name text)

/-- Adds one more row at the end, given as column names and the texts of their values. -/
def pushTexts (r : Relation) (row : List (String × String)) : Reply Relation Unit TableError :=
  match r.readRow row with
  | .ok t => r.push t
  | .error e => ⟨.error e, r⟩

end Relation
end PullAlgebra
