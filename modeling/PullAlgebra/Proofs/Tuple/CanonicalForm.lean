import PullAlgebra.Proofs.Tuple.Slots

/-!
# PullAlgebra.Proofs.Tuple.CanonicalForm

Alignment as a choice of representatives. Tuples that differ in the order of their fields hold the
same values under the same names. Of all of these the one in the order of a schema is chosen, by
whatever way it is reached, so aligned tuples are equal exactly if they agree under each name.

* `Tuple.AlignedTo`: what is known of the tuple that another one is aligned to; `Tuple.alignedTo`.
* `Tuple.forall₂_values_iff`: values place by place and values under each name.
* `Tuple.alignment_is_canonical`: which tuples are aligned, to what, and when to equal ones.
-/

namespace PullAlgebra
namespace Tuple

variable {t u : Tuple} {s : Schema}

/-- The tuple has the columns of the schema and the values of another tuple, and no further alignment
leads to any other. -/
structure AlignedTo (s : Schema) (t u : Tuple) : Prop where
  columns_eq : u.columns = s.columns
  size_eq : u.size = t.size
  get?_eq : ∀ name, u.get? name = t.get? name
  again : u.alignTo s = .ok u
  through : ∀ s' : Schema, s'.sameColumns s = true →
    ∃ v, t.alignTo s' = .ok v ∧ v.alignTo s = .ok u

theorem alignedTo (h : t.alignTo s = .ok u) : AlignedTo s t u := by
  obtain ⟨columns, same⟩ := alignTo_eq_ok_iff.1 h
  constructor
  case columns_eq => exact columns
  case size_eq => exact same.length_eq
  case get?_eq => exact get?_of_perm same
  case again => exact alignTo_of_columns columns
  case through =>
    intro s' equal
    have fits : t.columns.Perm s'.columns :=
      (fits_iff_perm.1 (exists_alignTo_iff.1 ⟨u, h⟩)).trans (Schema.sameColumns_iff_perm.1 equal).symm
    obtain ⟨v, aligned⟩ := exists_alignTo_of_perm fits
    exact ⟨v, aligned, alignTo_eq_ok_iff.2 ⟨columns, same.trans (alignTo_eq_ok_iff.1 aligned).2.symm⟩⟩

/-! ## Equality of aligned tuples -/

theorem rel_value_find? {R : Value → Value → Prop} {fs gs : List Field}
    (h : List.Forall₂ (fun f g => f.column = g.column ∧ R f.value g.value) fs gs) (name : String) :
    Option.Rel R ((fs.find? fun f => f.name == name).map Field.value)
      ((gs.find? fun g => g.name == name).map Field.value) := by
  induction h with
  | nil => exact .none
  | @cons f g fs gs first _ ih =>
    have named : f.name = g.name := congrArg Column.name first.1
    rw [List.find?_cons, List.find?_cons, named]
    split
    · exact .some first.2
    · exact ih

/-- Tuples with the same columns have related values at each place if they have them under each
name. -/
theorem forall₂_values_iff {R : Value → Value → Prop} (same : t.columns = u.columns) :
    List.Forall₂ R t.values u.values ↔ ∀ name, Option.Rel R (t.get? name) (u.get? name) := by
  have same := map_eq_map_iff_forall₂.1 same
  rw [values, values, List.forall₂_map_left_iff, List.forall₂_map_right_iff]
  constructor
  · intro related
    refine rel_value_find? (List.forall₂_iff_zip.2 ⟨related.length_eq, fun {f g} paired => ?_⟩)
    exact ⟨(List.forall₂_iff_zip.1 same).2 paired, (List.forall₂_iff_zip.1 related).2 paired⟩
  · intro related
    refine List.forall₂_iff_zip.2 ⟨same.length_eq, fun {f g} paired => ?_⟩
    obtain ⟨hf, hg⟩ := List.of_mem_zip paired
    have named : g.name = f.name :=
      (congrArg Column.name ((List.forall₂_iff_zip.1 same).2 paired)).symm
    have values := related f.name
    rw [get?_of_mem hf, ← named, get?_of_mem hg] at values
    cases values with
    | some h => exact h

theorem equal_iff (same : t.columns = u.columns) :
    t.equal u = true ↔ List.Forall₂ (fun v w => v.equal w = true) t.values u.values := by
  have length : t.values.length = u.values.length := by
    simpa [columns, values] using congrArg List.length same
  rw [equal, same, beq_self_eq_true, Bool.true_and, List.all_eq_true, List.forall₂_iff_zip]
  simp [length]

theorem zip_columns_values (t : Tuple) : List.zipWith Field.mk t.columns t.values = t.fields := by
  simp [columns, values, List.zipWith_map]

theorem eq_of_values (same : t.columns = u.columns) (h : t.values = u.values) : t = u := by
  refine ext_fields ?_
  rw [← zip_columns_values t, ← zip_columns_values u, same, h]

theorem eq_of_get? (same : t.columns = u.columns) (h : ∀ name, t.get? name = u.get? name) :
    t = u := by
  have places : List.Forall₂ Eq t.values u.values := by
    refine (forall₂_values_iff same).2 fun name => ?_
    rw [h name]
    cases u.get? name with
    | none => exact .none
    | some v => exact .some rfl
  rw [List.forall₂_eq_eq_eq] at places
  exact eq_of_values same places

/-- The tuples that have the columns of a schema in some order are aligned to it, all others are
refused; the fields of the result are those that the slots of the schema hold. Nothing is lost, and
what is aligned stays as it is, also after a detour over another order. Aligned tuples are equal if
the tuples from which they come have equal values under each name, and the same if these have the
same values. -/
theorem alignment_is_canonical (s : Schema) :
    (∀ t : Tuple, ((∃ u, t.alignTo s = .ok u) ↔ t.schema.sameColumns s = true) ∧
      (t.alignTo s).map fields = t.placed s) ∧
    (∀ t u : Tuple, t.alignTo s = .ok u → AlignedTo s t u) ∧
    ∀ t t' u u' : Tuple, t.alignTo s = .ok u → t'.alignTo s = .ok u' →
      (u.equal u' = true ↔
        ∀ name, Option.Rel (fun v w => v.equal w = true) (t.get? name) (t'.get? name)) ∧
      (u = u' ↔ ∀ name, t.get? name = t'.get? name) := by
  refine ⟨fun t => ⟨exists_alignTo_iff, t.map_fields_alignTo s⟩, fun _ _ => alignedTo, ?_⟩
  intro t t' u u' aligned aligned'
  have left := alignedTo aligned
  have right := alignedTo aligned'
  have same : u.columns = u'.columns := left.columns_eq.trans right.columns_eq.symm
  simp only [← left.get?_eq, ← right.get?_eq]
  refine ⟨(equal_iff same).trans (forall₂_values_iff same), ?_, eq_of_get? same⟩
  rintro rfl name
  rfl

/-- The two zeros of a column that stands at another place in the schema: aligned, they are equal but
not the same. -/
theorem zeros_aligned_to_equal_tuples : ∃ (s : Schema) (t t' u u' : Tuple),
    s.columns = [⟨"count", .integer⟩, ⟨"ratio", .float⟩] ∧
      t.values = [.float (Float.ofBits 0), .integer 7] ∧
      t'.values = [.float (Float.ofBits 0x8000000000000000), .integer 7] ∧
      t.alignTo s = .ok u ∧ t'.alignTo s = .ok u' ∧ u.equal u' = true ∧ u ≠ u' := by
  obtain ⟨s, columns⟩ :
      ∃ s : Schema, s.columns = [⟨"count", .integer⟩, ⟨"ratio", .float⟩] :=
    ⟨.ofDistinct _ (by decide), Schema.columns_ofDistinct _⟩
  let row (x : Float) (finite : x.isFinite) : Tuple :=
    ⟨[⟨⟨"ratio", .float⟩, .float x⟩, ⟨⟨"count", .integer⟩, .integer 7⟩], by simp [Field.name],
      by simp [Field.Stored, ColumnType.Stores, Value.type, finite]⟩
  have zero : (Float.ofBits 0).isFinite := Binary64.isFinite_ofBits (by decide)
  have negative : (Float.ofBits 0x8000000000000000).isFinite := Binary64.isFinite_ofBits (by decide)
  let t := row (Float.ofBits 0) zero
  let t' := row (Float.ofBits 0x8000000000000000) negative
  obtain ⟨aligned, -, equality⟩ := alignment_is_canonical s
  have same (x finite) : (row x finite).schema.sameColumns s = true := by
    rw [Schema.sameColumns_iff_perm, columns_schema, columns]
    exact .swap ..
  obtain ⟨u, left⟩ := (aligned t).1.2 (same _ zero)
  obtain ⟨u', right⟩ := (aligned t').1.2 (same _ negative)
  obtain ⟨equal, identical⟩ := equality t t' u u' left right
  refine ⟨s, t, t', u, u', columns, rfl, rfl, left, right, equal.2 ?_, ?_⟩
  case refine_1 =>
    refine rel_value_find? (.cons ⟨rfl, ?_⟩ (.cons ⟨rfl, ?_⟩ .nil))
    · decide +kernel
    · decide
  case refine_2 =>
    intro merged
    have zeros := identical.1 merged "ratio"
    have apart : Value.float (Float.ofBits 0) ≠ .float (Float.ofBits 0x8000000000000000) := by
      decide +kernel
    exact apart (Option.some.inj zeros)

end Tuple
end PullAlgebra
