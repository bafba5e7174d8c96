import PullAlgebra.Proofs.Relation.Rebuilt
import PullAlgebra.Proofs.Value.Notation

/-!
# PullAlgebra.Proofs.Relation.Texts

Rows given as texts. The text of a number is read as the number, and a row of texts that are read as
the fields of a tuple adds this tuple.

* `ColumnType.read?_digits`: the digits of a number.
* `readField_of_read?`: one text; `readRow_of_read` the texts of a row.
* `exists_pushTexts`: the row that they add.
-/

namespace PullAlgebra

theorem ColumnType.read?_digits {n : Nat} (h : n < 2 ^ 63) :
    ColumnType.integer.read? (String.ofList (Numeral.digits n)) =
      some (.integer (Int64.ofInt n)) := by
  have inRange : Integer64.InRange n := ⟨by omega, by omega⟩
  have text : (Value.integer (Int64.ofInt n)).text = String.ofList (Numeral.digits n) := by
    rw [Value.text, Integer64.toInt_ofInt inRange, Numeral.ofInt, if_neg (by omega),
      Int.natAbs_natCast]
  have stores : ColumnType.integer.Stores (.integer (Int64.ofInt n)) := ⟨rfl, by rintro x ⟨⟩⟩
  rw [← text]
  exact read?_text stores

namespace Relation

variable {r : Relation}

theorem readField_of_read? {c : Column} {text : String} {v : Value} (hc : c ∈ r.schema.columns)
    (read : c.type.read? text = some v) : r.readField c.name text = .ok ⟨c, v⟩ := by
  simp only [readField, Schema.column?_of_mem hc, ColumnType.parse, read]
  rfl

theorem readRow_eq (r : Relation) (row : List (String × String)) :
    r.readRow row = (row.mapM fun pair => r.readField pair.1 pair.2) >>= Tuple.ofFields :=
  rfl

theorem readRow_of_read {row : List (String × String)} {fields : List Field}
    (read : List.Forall₂ (fun pair f => r.readField pair.1 pair.2 = .ok f) row fields) :
    r.readRow row = Tuple.ofFields fields := by
  rw [readRow_eq, mapM_eq_ok_of_forall₂ read]
  rfl

/-- Texts that are read as the fields of a tuple with the columns of the relation add this tuple. -/
theorem exists_pushTexts {row : List (String × String)} {t : Tuple}
    (aligned : t.columns = r.schema.columns)
    (read : List.Forall₂ (fun text f => r.readField text.1 text.2 = .ok f) row t.fields) :
    ∃ grown, r.pushTexts row = ⟨.ok (), grown⟩ ∧ grown.schema = r.schema ∧
      grown.tuples = r.tuples.push t := by
  rw [pushTexts_of_readRow ((readRow_of_read read).trans (Tuple.ofFields_fields t))]
  exact push_of_aligned (Tuple.alignTo_of_columns aligned)

end Relation
end PullAlgebra
