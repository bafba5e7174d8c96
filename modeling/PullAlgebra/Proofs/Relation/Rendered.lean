import PullAlgebra.Proofs.Relation.Acceptance

/-!
# PullAlgebra.Proofs.Relation.Rendered

Rows written out and read back. Every value of a tuple is in the form of its column, so the column
reads its text as the value itself, and the texts of all fields denote these fields again. In
whatever order they are given, the columns of the relation bring them back into theirs.

* `Tuple.texts`: the names and texts of a tuple.
* `Relation.denotes_texts`: the fields that they stand for.
* `Relation.texts_restore_tuple`: the row that they add.
-/

namespace PullAlgebra

/-- Each field by the name of its column and the text of its value. -/
def Tuple.texts (t : Tuple) : List (String × String) :=
  t.fields.map fun f => (f.name, f.value.text)

namespace Relation

variable {r : Relation} {t : Tuple}

theorem denotes_texts (columns : t.columns = r.schema.columns) :
    List.Forall₂ r.Denotes t.texts t.fields := by
  rw [Tuple.texts, List.forall₂_map_left_iff, List.forall₂_same]
  intro f hf
  have known : f.column ∈ r.schema.columns := columns ▸ List.mem_map_of_mem hf
  exact ⟨known, rfl, ColumnType.parse_eq_ok_iff.2 (ColumnType.read?_text (t.stored f hf))⟩

/-- The texts of a tuple, in any order, add the tuple to a relation with its columns. -/
theorem pushTexts_texts (columns : t.columns = r.schema.columns) {row : List (String × String)}
    (same : row.Perm t.texts) {grown : Relation} (schema : grown.schema = r.schema)
    (tuples : grown.tuples = r.tuples.push t) : r.pushTexts row = ⟨.ok (), grown⟩ := by
  have taken : r.pushTexts t.texts = ⟨.ok (), grown⟩ :=
    pushTexts_eq_ok_iff.2 ⟨schema, t, tuples, columns, t.fields, denotes_texts columns, .refl _⟩
  exact pushTexts_of_perm taken same

/-- To write out a tuple and to read it back into an empty relation of its own columns gives the
tuple again, whatever the order of its texts. The doubles in it are the same to the bit. -/
theorem texts_restore_tuple (t : Tuple) {row : List (String × String)} (same : row.Perm t.texts) :
    ∃ grown, (empty t.schema).pushTexts row = ⟨.ok (), grown⟩ ∧ grown.schema = t.schema ∧
      grown.tuples = #[t] := by
  have columns : t.columns = (empty t.schema).schema.columns := t.columns_schema.symm
  let grown : Relation := ⟨t.schema, #[t], by simp [t.columns_schema]⟩
  exact ⟨grown, pushTexts_texts columns same rfl rfl, rfl, rfl⟩

/-- The least integer, the negative zero and a text with white space around it, in another order. -/
theorem extreme_texts_restored : ∃ (t : Tuple) (grown : Relation),
    t.columns = [⟨"count", .integer⟩, ⟨"ratio", .float⟩, ⟨"note", .string⟩, ⟨"flag", .boolean⟩] ∧
      t.values = [.integer Int64.minValue, .float (Float.ofBits 0x8000000000000000),
        .string "  two\nlines ", .boolean true] ∧
      (empty t.schema).pushTexts [("flag", "true"), ("note", "  two\nlines "), ("ratio", "-0"),
        ("count", "-9223372036854775808")] = ⟨.ok (), grown⟩ ∧
      grown.tuples = #[t] := by
  let zero := Float.ofBits 0x8000000000000000
  have finite : zero.isFinite := Binary64.isFinite_ofBits (by decide)
  let t : Tuple :=
    ⟨[⟨⟨"count", .integer⟩, .integer Int64.minValue⟩, ⟨⟨"ratio", .float⟩, .float zero⟩,
        ⟨⟨"note", .string⟩, .string "  two\nlines "⟩, ⟨⟨"flag", .boolean⟩, .boolean true⟩],
      by simp [Field.name], by simp [Field.Stored, ColumnType.Stores, Value.type, finite]⟩
  have decoded : Binary64.decode? zero = some ⟨true, 0, -1074⟩ := by decide +kernel
  have shortest : Decimal.shortest? zero = some ⟨true, 0, -1074⟩ := by
    have exact : Decimal.ofDyadic ⟨true, 0, -1074⟩ = ⟨true, 0, -1074⟩ := by
      rw [Decimal.ofDyadic, if_neg (by decide), Nat.zero_mul]
    rw [Decimal.shortest?, decoded, Option.map_some, exact]
    simp [Numeral.digits, Decimal.shortestFrom, Decimal.stripZeros]
  have ratio : (Value.float zero).text = "-0" := by
    simp only [Value.text, Decimal.Layout.ofFloat, shortest]
    decide
  have texts : t.texts = [("count", "-9223372036854775808"), ("ratio", "-0"),
      ("note", "  two\nlines "), ("flag", "true")] := by
    simp only [Tuple.texts, t, List.map_cons, List.map_nil, ratio]
    rfl
  obtain ⟨grown, taken, -, tuples⟩ := texts_restore_tuple t (List.reverse_perm t.texts)
  rw [texts] at taken
  exact ⟨t, grown, rfl, rfl, taken, tuples⟩

end Relation
end PullAlgebra
