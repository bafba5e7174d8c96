import PullAlgebra.Proofs.Relation.OneColumn
import PullAlgebra.Proofs.Result
import PullAlgebra.Proofs.Tuple.Alignment
import PullAlgebra.Proofs.Tuple.Restored

/-!
# PullAlgebra.Proofs.Relation.Growth

Relations through any calls that add to them. What a call adds depends on its arguments and on the
schema, but on none of the rows that are there: it is one row, in the order of the schema. A call
that fails has not touched the relation when it gives up.

* `Addition.row`: the row that a call adds; `row_eq_ok_iff` that it has the fields of the call.
* `Relation.add_cases`: what one call answers, and the relation that it leaves.
* `Relation.tuples_after`: the rows after any calls, as a list.
* `Relation.ofTuples_eq_pushAll`: tuples all at once or one by one.
* `Relation.grows_by_accepted_rows`: all of it for relations that are built and then added to.
-/

namespace PullAlgebra

/-- What a call adds to a relation: a tuple, or the texts of a row. -/
inductive Addition where
  | tuple (t : Tuple)
  | texts (row : List (String × String))

namespace Addition

/-- The tuple that a call is about, in whatever order. -/
def read (schema : Schema) : Addition → Except TableError Tuple
  | tuple t => .ok t
  | texts row => (Relation.empty schema).readRow row

/-- The row that a relation with the schema gets from a call. -/
def row (schema : Schema) (a : Addition) : Except TableError Tuple := do
  (← a.read schema).alignTo schema

/-- The row has the fields that were read, in the order of the schema. -/
theorem row_eq_ok_iff {schema : Schema} {a : Addition} {t : Tuple} :
    a.row schema = .ok t ↔
      t.columns = schema.columns ∧ ∃ u, a.read schema = .ok u ∧ t.fields.Perm u.fields := by
  unfold row
  cases a.read schema with
  | error e => exact ⟨nofun, nofun⟩
  | ok u =>
    refine Tuple.alignTo_eq_ok_iff.trans (and_congr_right fun _ => ?_)
    constructor
    · intro same
      exact ⟨u, rfl, same⟩
    · rintro ⟨u', read, same⟩
      cases read
      exact same

end Addition

/-- The columns are those of the schema, in its order, and each value is in the form in which its
column keeps it. -/
def Tuple.LaidOut (t : Tuple) (schema : Schema) : Prop :=
  t.columns = schema.columns ∧ ∀ f ∈ t.fields, f.stored? = some f

namespace Relation

theorem ext_tuples {r s : Relation} (schema : r.schema = s.schema) (tuples : r.tuples = s.tuples) :
    r = s := by
  cases r; cases s; cases schema; cases tuples; rfl

/-! ## One call -/

def add (r : Relation) : Addition → Reply Relation Unit TableError
  | .tuple t => r.push t
  | .texts row => r.pushTexts row

theorem push_cases (r : Relation) (t : Tuple) :
    (∃ u grown, t.alignTo r.schema = .ok u ∧ r.push t = ⟨.ok (), grown⟩ ∧
        grown.schema = r.schema ∧ grown.tuples = r.tuples.push u) ∨
      ∃ e, t.alignTo r.schema = .error e ∧ r.push t = ⟨.error e, r⟩ := by
  unfold push
  split
  · rename_i u aligned
    exact .inl ⟨u, _, aligned, rfl, rfl, rfl⟩
  · rename_i e refused
    exact .inr ⟨e, refused, rfl⟩

section Calls

variable {r : Relation} {row : List (String × String)} {a : Addition} {t : Tuple} {e : TableError}

theorem pushTexts_of_readRow (h : r.readRow row = .ok t) : r.pushTexts row = r.push t := by
  rw [pushTexts, h]

theorem pushTexts_of_unread (h : r.readRow row = .error e) : r.pushTexts row = ⟨.error e, r⟩ := by
  rw [pushTexts, h]

theorem push_of_aligned {u : Tuple} (aligned : t.alignTo r.schema = .ok u) :
    ∃ grown, r.push t = ⟨.ok (), grown⟩ ∧ grown.schema = r.schema ∧
      grown.tuples = r.tuples.push u := by
  rcases r.push_cases t with ⟨_, grown, aligned', step, schema, tuples⟩ | ⟨_, refused, -⟩
  · cases aligned.symm.trans aligned'
    exact ⟨grown, step, schema, tuples⟩
  · cases aligned.symm.trans refused

theorem push_of_refused (refused : t.alignTo r.schema = .error e) : r.push t = ⟨.error e, r⟩ := by
  rcases r.push_cases t with ⟨_, _, aligned, -⟩ | ⟨_, refused', step⟩
  · cases refused.symm.trans aligned
  · cases refused.symm.trans refused'
    exact step

/-- Both ways to add a row end in a push, if there is a tuple to push. -/
theorem add_of_read (h : a.read r.schema = .ok t) : r.add a = r.push t := by
  cases a with
  | tuple t => cases h; rfl
  | texts row => exact pushTexts_of_readRow h

theorem add_of_unread (h : a.read r.schema = .error e) : r.add a = ⟨.error e, r⟩ := by
  cases a with
  | tuple t => cases h
  | texts row => exact pushTexts_of_unread h

end Calls

theorem add_cases (r : Relation) (a : Addition) :
    (∃ t grown, a.row r.schema = .ok t ∧ r.add a = ⟨.ok (), grown⟩ ∧
        grown.schema = r.schema ∧ grown.tuples = r.tuples.push t) ∨
      ∃ e, a.row r.schema = .error e ∧ r.add a = ⟨.error e, r⟩ := by
  unfold Addition.row
  cases read : a.read r.schema with
  | error e => exact .inr ⟨e, rfl, add_of_unread read⟩
  | ok t =>
    rw [add_of_read read]
    exact r.push_cases t

/-- A call that succeeds adds one row at the end, and a call that fails nothing. -/
theorem tuples_add (r : Relation) (a : Addition) :
    (r.add a).after.schema = r.schema ∧
      (r.add a).after.tuples.toList = r.tuples.toList ++ (a.row r.schema).toOption.toList := by
  rcases r.add_cases a with ⟨t, grown, row, step, schema, tuples⟩ | ⟨e, row, step⟩
  · rw [step, row]
    exact ⟨schema, by simp [tuples, Except.toOption]⟩
  · rw [step, row]
    exact ⟨rfl, by simp [Except.toOption]⟩

/-! ## Any calls -/

/-- The relation that some calls leave, whether they fail or not. -/
def after (r : Relation) (calls : List Addition) : Relation :=
  calls.foldl (fun r a => (r.add a).after) r

theorem tuples_after (r : Relation) (calls : List Addition) :
    (r.after calls).schema = r.schema ∧
      (r.after calls).tuples.toList =
        r.tuples.toList ++ calls.filterMap fun a => (a.row r.schema).toOption := by
  induction calls generalizing r with
  | nil => simp [after]
  | cons a calls ih =>
    obtain ⟨schema, tuples⟩ := r.tuples_add a
    obtain ⟨schema', tuples'⟩ := ih (r.add a).after
    rw [schema] at schema' tuples'
    refine ⟨schema', tuples'.trans ?_⟩
    rw [tuples, List.append_assoc, List.filterMap_cons]
    cases (a.row r.schema).toOption <;> rfl

/-! ## All tuples at once -/

/-- Pushes tuples one by one, up to the first that is refused. -/
def pushAll (r : Relation) (tuples : List Tuple) : Except TableError Relation :=
  tuples.foldlM (fun r t => (r.push t).kept) r

theorem pushAll_cases (r : Relation) (tuples : List Tuple) :
    (∃ rows grown, (tuples.mapM fun t => t.alignTo r.schema) = .ok rows ∧
        r.pushAll tuples = .ok grown ∧ grown.schema = r.schema ∧
        grown.tuples = r.tuples ++ rows.toArray) ∨
      ∃ e, (tuples.mapM fun t => t.alignTo r.schema) = .error e ∧ r.pushAll tuples = .error e := by
  unfold pushAll
  induction tuples generalizing r with
  | nil => exact .inl ⟨[], r, rfl, rfl, rfl, by simp⟩
  | cons t tuples ih =>
    rw [List.mapM_cons, List.foldlM_cons]
    rcases r.push_cases t with
      ⟨u, next, aligned, pushed, schema, last⟩ | ⟨e, refused, failed⟩
    · rw [aligned, pushed]
      have rest := ih next
      rw [schema] at rest
      rcases rest with ⟨rows, grown, aligned, pushed, schema, whole⟩ | ⟨e, refused, failed⟩
      · refine .inl ⟨u :: rows, grown, by rw [aligned]; rfl, pushed, schema, ?_⟩
        simp [whole, last]
      · exact .inr ⟨e, by rw [refused]; rfl, failed⟩
    · rw [refused, failed]
      exact .inr ⟨e, rfl, rfl⟩

theorem ofTuples_cases (schema : Schema) (tuples : List Tuple) :
    (∃ rows built, (tuples.mapM fun t => t.alignTo schema) = .ok rows ∧
        ofTuples schema tuples = .ok built ∧ built.schema = schema ∧
        built.tuples = rows.toArray) ∨
      ∃ e, (tuples.mapM fun t => t.alignTo schema) = .error e ∧
        ofTuples schema tuples = .error e := by
  unfold ofTuples
  split
  · rename_i rows aligned
    exact .inl ⟨rows, _, aligned, rfl, rfl, rfl⟩
  · rename_i e refused
    exact .inr ⟨e, refused, rfl⟩

/-- Tuples taken at once are taken as if one by one, and refused with the first error there. -/
theorem ofTuples_eq_pushAll (schema : Schema) (tuples : List Tuple) :
    ofTuples schema tuples = (empty schema).pushAll tuples := by
  rcases ofTuples_cases schema tuples with
    ⟨rows, built, aligned, step, same, whole⟩ | ⟨e, refused, step⟩ <;>
  rcases (empty schema).pushAll_cases tuples with
    ⟨rows', grown, aligned', step', same', whole'⟩ | ⟨e', refused', step'⟩
  · cases aligned.symm.trans aligned'
    rw [step, step']
    exact congrArg Except.ok (ext_tuples (same.trans same'.symm) (by simp [whole, whole', empty]))
  · cases aligned.symm.trans refused'
  · cases refused.symm.trans aligned'
  · cases refused.symm.trans refused'
    rw [step, step']

/-! ## What every relation keeps to -/

theorem laidOut_of_mem {r : Relation} {t : Tuple} (h : t ∈ r.tuples) : t.LaidOut r.schema :=
  ⟨r.aligned t h, fun f hf => Field.stored?_of_stored (t.stored f hf)⟩

/-- What a relation with a schema has come to after some calls, and what one more call does. -/
structure GrownBy (schema : Schema) (r : Relation) (calls : List Addition) : Prop where
  schema_eq : (r.after calls).schema = schema
  laid_out : ∀ t ∈ (r.after calls).tuples, t.LaidOut schema
  rows_eq : (r.after calls).tuples.toList =
    r.tuples.toList ++ calls.filterMap fun a => (a.row schema).toOption
  succeeds : ∀ a grown, (r.after calls).add a = ⟨.ok (), grown⟩ → grown.schema = schema ∧
    ∃ t, a.row schema = .ok t ∧ grown.tuples = (r.after calls).tuples.push t
  fails : ∀ a e left, (r.after calls).add a = ⟨.error e, left⟩ →
    a.row schema = .error e ∧ left = r.after calls

theorem schema_of_built {schema : Schema} {r : Relation}
    (built : r = empty schema ∨ ∃ tuples, ofTuples schema tuples = .ok r) : r.schema = schema := by
  rcases built with rfl | ⟨tuples, step⟩
  · rfl
  · rcases ofTuples_cases schema tuples with ⟨_, _, -, step', same, -⟩ | ⟨_, -, step'⟩
    · cases step.symm.trans step'
      exact same
    · cases step.symm.trans step'

theorem grownBy (r : Relation) (calls : List Addition) : GrownBy r.schema r calls := by
  obtain ⟨schema, rows⟩ := r.tuples_after calls
  constructor
  case schema_eq => exact schema
  case laid_out =>
    intro t ht
    rw [← schema]
    exact laidOut_of_mem ht
  case rows_eq => exact rows
  case succeeds =>
    intro a grown success
    rcases (r.after calls).add_cases a with ⟨t, _, row, step, kept, last⟩ | ⟨e, -, step⟩
    · cases success.symm.trans step
      rw [schema] at row kept
      exact ⟨kept, t, row, last⟩
    · cases success.symm.trans step
  case fails =>
    intro a e left failure
    rcases (r.after calls).add_cases a with ⟨_, _, -, step, -⟩ | ⟨_, row, step⟩
    · cases failure.symm.trans step
    · cases failure.symm.trans step
      rw [schema] at row
      exact ⟨row, rfl⟩

/-- A relation that is built empty or from tuples keeps its schema through any calls, and its rows
follow the schema. A call that succeeds adds its row at the end, which has the fields that the call
gave; a call that fails leaves the relation as it was. To build it from tuples is to push them one by
one, up to the first that is refused. -/
theorem grows_by_accepted_rows {schema : Schema} {r : Relation}
    (built : r = empty schema ∨ ∃ tuples, ofTuples schema tuples = .ok r) (calls : List Addition) :
    GrownBy schema r calls ∧
      (∀ (a : Addition) (t : Tuple), a.row schema = .ok t ↔
        t.columns = schema.columns ∧ ∃ u, a.read schema = .ok u ∧ t.fields.Perm u.fields) ∧
      ∀ tuples, ofTuples schema tuples = (empty schema).pushAll tuples := by
  obtain rfl := schema_of_built built
  exact ⟨r.grownBy calls, fun _ _ => Addition.row_eq_ok_iff, ofTuples_eq_pushAll r.schema⟩

/-- A tuple and texts with their fields in another order come into the relation. Texts of which one
is no number do not, and are answered with the relation that was there. -/
theorem two_of_three_rows_kept :
    ∃ schema t, schema.columns = [⟨"flag", .boolean⟩, ⟨"count", .integer⟩] ∧
      t.values = [.integer 4, .boolean true] ∧
      ((empty schema).after [.tuple t]).pushTexts [("flag", "true"), ("count", "1.5")] =
        ⟨.error (.unreadable .integer "1.5"), (empty schema).after [.tuple t]⟩ ∧
      ((empty schema).after [.tuple t, .texts [("flag", "true"), ("count", "1.5")],
        .texts [("count", " 7 "), ("flag", "no")]]).tuples.toList.map Tuple.values =
          [[.boolean true, .integer 4], [.boolean false, .integer 7]] := by
  obtain ⟨schema, columns⟩ :
      ∃ schema : Schema, schema.columns = [⟨"flag", .boolean⟩, ⟨"count", .integer⟩] :=
    ⟨.ofDistinct _ (by decide), Schema.columns_ofDistinct _⟩
  have flag : schema.column? "flag" = some ⟨"flag", .boolean⟩ := by
    rw [Schema.column?_eq_find?, columns]
    rfl
  have count : schema.column? "count" = some ⟨"count", .integer⟩ := by
    rw [Schema.column?_eq_find?, columns]
    rfl
  let swapped (b : Bool) (i : Int64) : Tuple :=
    ⟨[⟨⟨"count", .integer⟩, .integer i⟩, ⟨⟨"flag", .boolean⟩, .boolean b⟩],
      by simp [Field.name], by simp [Field.Stored, ColumnType.Stores, Value.type]⟩
  have aligned (b : Bool) (i : Int64) :
      ((swapped b i).alignTo schema).map Tuple.values = .ok [.boolean b, .integer i] := by
    simp only [Tuple.alignTo, Schema.size, columns]
    rfl
  obtain ⟨first, pushed, values⟩ := map_eq_ok (aligned true 4)
  obtain ⟨second, aligned, values'⟩ := map_eq_ok (aligned false 7)
  let unreadable : Addition := .texts [("flag", "true"), ("count", "1.5")]
  let readable : Addition := .texts [("count", " 7 "), ("flag", "no")]
  have refused : unreadable.row schema = .error (.unreadable .integer "1.5") := by
    simp only [unreadable, Addition.row, Addition.read, readRow, List.mapM_cons, readField, empty, flag,
      count]
    rfl
  have read : readable.read schema = .ok (swapped false 7) := by
    simp only [readable, Addition.read, readRow, List.mapM_cons, List.mapM_nil, readField, empty, flag,
      count]
    rfl
  have taken : readable.row schema = .ok second := by
    rw [Addition.row, read]
    exact aligned
  have built : empty schema = empty schema ∨
      ∃ tuples, ofTuples schema tuples = .ok (empty schema) := .inl rfl
  obtain ⟨grown, -⟩ :=
    grows_by_accepted_rows built [.tuple (swapped true 4), unreadable, readable]
  obtain ⟨early, -⟩ := grows_by_accepted_rows built [.tuple (swapped true 4)]
  have failed : ((empty schema).after [.tuple (swapped true 4)]).add unreadable =
      ⟨.error (.unreadable .integer "1.5"), (empty schema).after [.tuple (swapped true 4)]⟩ := by
    rcases answer : ((empty schema).after [.tuple (swapped true 4)]).add unreadable with
      ⟨e | _, left⟩
    · obtain ⟨row, rfl⟩ := early.fails unreadable e left answer
      cases refused.symm.trans row
      rfl
    · obtain ⟨-, t, row, -⟩ := early.succeeds unreadable left answer
      cases refused.symm.trans row
  have pushed : (Addition.tuple (swapped true 4)).row schema = .ok first := pushed
  refine ⟨schema, swapped true 4, columns, rfl, failed, ?_⟩
  rw [grown.rows_eq]
  simp [pushed, refused, taken, Except.toOption, empty, values, values']

end Relation
end PullAlgebra
