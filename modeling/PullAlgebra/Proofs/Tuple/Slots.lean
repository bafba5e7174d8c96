import PullAlgebra.Proofs.Schema.SameColumns
import PullAlgebra.Proofs.Tuple.Alignment
import PullAlgebra.Proofs.Tuple.Names

/-!
# PullAlgebra.Proofs.Tuple.Slots

Alignment by slots. A tuple whose names are in the order of the schema stays as it is. The fields of
any other tuple go, one after the other, to the slot that the schema has for their names, and the
slots that were filled are the result. No field is dropped on the way: different fields have different
slots, and in the end no slot is empty.

* `Tuple.fits_iff_perm`, `Tuple.exists_alignTo_iff`: which tuples are aligned.
* `Tuple.slots`, `Tuple.inOrder`, `Tuple.placed`: the two ways to the fields of the result.
* `Tuple.foldl_place`: what the slots hold after some of the fields.
* `Tuple.slots_of_alignTo`: what they hold in the end.
* `Tuple.map_fields_alignTo`: alignment gives the fields of the slots.
-/

namespace PullAlgebra
namespace Tuple

variable {t u : Tuple} {s : Schema}

theorem fits_iff_perm : t.fits s = true ↔ t.columns.Perm s.columns := by
  rw [fits, Schema.sameColumns_iff_perm, columns_schema]

theorem exists_alignTo_iff : (∃ u, t.alignTo s = .ok u) ↔ t.fits s = true := by
  rw [fits_iff_perm]
  constructor
  · rintro ⟨u, aligned⟩
    obtain ⟨columns, same⟩ := alignTo_eq_ok_iff.1 aligned
    rw [← columns]
    exact (same.map Field.column).symm
  · exact exists_alignTo_of_perm

/-- A field put into the slot of its name, if there is one. -/
def place (s : Schema) (slots : List (Option Field)) (f : Field) : List (Option Field) :=
  match s.indexOf? f.name with
  | some i => slots.set i (some f)
  | none => slots

/-- As many slots as there are fields, after all of them were placed. -/
def slots (t : Tuple) (s : Schema) : List (Option Field) :=
  t.fields.foldl (place s) (List.replicate t.size none)

/-- Whether the names come in the order of the schema, as far as both have names. -/
def inOrder (t : Tuple) (s : Schema) : Bool :=
  (t.fields.zip s.names).all fun (f, name) => f.name == name

/-- The fields in the order of the schema, if the tuple has its columns. -/
def placed (t : Tuple) (s : Schema) : Except TableError (List Field) :=
  if t.fits s then .ok (if t.inOrder s then t.fields else (t.slots s).filterMap id)
  else .error (.columnsDiffer t.schema.names s.names)

/-! ## Filling the slots -/

theorem indexOf?_of_getElem? (columns : u.columns = s.columns) {i : Nat} {f : Field}
    (hi : u.fields[i]? = some f) : s.indexOf? f.name = some i := by
  rw [Schema.indexOf?_eq_some_iff, ← names_eq_of_columns_eq columns, List.getElem?_map, hi]
  rfl

/-- The fields of a list at their places, as far as they were seen. -/
def seenAmong (fields seen : List Field) : List (Option Field) :=
  fields.map fun f => if f ∈ seen then some f else none

theorem place_seenAmong (columns : u.columns = s.columns) (seen : List Field) {f : Field}
    (hf : f ∈ u.fields) :
    place s (seenAmong u.fields seen) f = seenAmong u.fields (f :: seen) := by
  obtain ⟨i, hi⟩ := List.getElem?_of_mem hf
  have position : s.indexOf? f.name = some i := indexOf?_of_getElem? columns hi
  simp only [place, position, seenAmong]
  refine List.ext_getElem? fun j => ?_
  rw [List.getElem?_set, List.getElem?_map, List.getElem?_map, List.length_map]
  split
  · subst j
    obtain ⟨bound, rfl⟩ := List.getElem?_eq_some_iff.1 hi
    simp [bound]
  · rename_i apart
    cases hj : u.fields[j]? with
    | none => rfl
    | some g =>
      -- another place, so another name and another field
      have other : g ≠ f := by
        rintro rfl
        exact apart (Option.some.inj (position.symm.trans (indexOf?_of_getElem? columns hj)))
      simp [other]

theorem foldl_place (columns : u.columns = s.columns) (seen : List Field) {fields : List Field}
    (known : ∀ f ∈ fields, f ∈ u.fields) :
    fields.foldl (place s) (seenAmong u.fields seen) =
      seenAmong u.fields (fields.reverse ++ seen) := by
  induction fields generalizing seen with
  | nil => rfl
  | cons f fields ih =>
    obtain ⟨first, rest⟩ := List.forall_mem_cons.1 known
    rw [List.foldl_cons, place_seenAmong columns seen first, ih (f :: seen) rest,
      List.reverse_cons, List.append_assoc, List.singleton_append]

theorem slots_of_alignTo (h : t.alignTo s = .ok u) : t.slots s = u.fields.map some := by
  obtain ⟨columns, same⟩ := alignTo_eq_ok_iff.1 h
  have empty : List.replicate t.size none = seenAmong u.fields [] := by
    simp [seenAmong, size, same.length_eq]
  rw [slots, empty, foldl_place columns [] fun f hf => same.mem_iff.2 hf]
  refine List.map_congr_left fun f hf => if_pos ?_
  simpa using same.mem_iff.1 hf

/-! ## Names that are in order -/

theorem inOrder_iff (size : t.fields.length = s.names.length) :
    t.inOrder s = true ↔ t.fields.map Field.name = s.names := by
  rw [inOrder, ← List.forall₂_eq_eq_eq, List.forall₂_map_left_iff, List.forall₂_iff_zip]
  simp [size]

/-- Columns with the names of a schema, in its order, are those of the schema. -/
theorem columns_of_inOrder (fits : t.columns.Perm s.columns) (ordered : t.inOrder s = true) :
    t.columns = s.columns := by
  have size : t.fields.length = s.names.length := by
    simpa [columns, Schema.names] using fits.length_eq
  have names : t.columns.map Column.name = s.columns.map Column.name := by
    rw [columns, List.map_map]
    exact (inOrder_iff size).1 ordered
  have named := map_eq_map_iff_forall₂.1 names
  rw [← List.forall₂_eq_eq_eq, List.forall₂_iff_zip]
  refine ⟨fits.length_eq, fun {c d} paired => ?_⟩
  obtain ⟨left, right⟩ := List.of_mem_zip paired
  exact List.inj_on_of_nodup_map s.distinct (fits.mem_iff.1 left) right
    ((List.forall₂_iff_zip.1 named).2 paired)

/-- Alignment gives the fields that are in the slots of the schema, and fails where the columns are
not those of the schema. -/
theorem map_fields_alignTo (t : Tuple) (s : Schema) : (t.alignTo s).map fields = t.placed s := by
  unfold placed
  split
  · rename_i fits
    obtain ⟨u, aligned⟩ := exists_alignTo_iff.2 fits
    rw [aligned]
    split
    · rename_i ordered
      have already := columns_of_inOrder (fits_iff_perm.1 fits) ordered
      cases (alignTo_of_columns already).symm.trans aligned
      rfl
    · rw [slots_of_alignTo aligned]
      simp [Except.map]
  · rename_i unfit
    have refused : ∀ u, t.alignTo s ≠ .ok u := by
      intro u aligned
      exact unfit (exists_alignTo_iff.1 ⟨u, aligned⟩)
    rw [alignTo_of_refused refused]
    rfl

end Tuple
end PullAlgebra
