import Mathlib.Data.List.Find
import PullAlgebra.Proofs.Schema.Position

/-!
# PullAlgebra.Proofs.Schema.Collision

When two schemas can be joined. The columns of the second one are taken one after the other, so what
is reported is the first of them whose name the first schema has; without such a column the schemas
are joined.

* `indexFrom_append`, `indexFrom_of_find?`: an index for two lists of columns.
* `Schema.ofColumns_of_repeated`: a list of columns with a name that occurred before.
* `Schema.join_of_find?`, `Schema.exists_join_of_apart`: two schemas; `Schema.join_eq_error_iff` that
  nothing else is in the way.
-/

namespace PullAlgebra

theorem indexFrom_append {as : List Column} {next : Nat} {index whole : Std.HashMap String Nat}
    (h : indexFrom next index as = .ok whole) (bs : List Column) :
    indexFrom next index (as ++ bs) = indexFrom (next + as.length) whole bs := by
  induction as generalizing next index with
  | nil => cases h; rfl
  | cons a as ih =>
    unfold indexFrom at h
    split at h
    · cases h
    · rename_i fresh
      rw [List.cons_append, indexFrom, if_neg fresh, ih h, List.length_cons, Nat.add_right_comm,
        Nat.add_assoc]

/-- Of columns with names of their own, the first whose name is in the index is refused. -/
theorem indexFrom_of_find? {columns : List Column} {index : Std.HashMap String Nat} {c : Column}
    (distinct : (columns.map Column.name).Nodup)
    (h : (columns.find? fun c => index.contains c.name) = some c) (next : Nat) :
    indexFrom next index columns = .error (.duplicateColumn c.name) := by
  induction columns generalizing next index with
  | nil => cases h
  | cons d rest ih =>
    rw [List.map_cons, List.nodup_cons] at distinct
    rw [List.find?_cons] at h
    unfold indexFrom
    split at h
    · rename_i taken
      cases h
      exact if_pos taken
    · rename_i fresh
      -- the name of `d` comes into the index, but no other column has it
      have others : (rest.find? fun c => (index.insert d.name next).contains c.name) =
          rest.find? fun c => index.contains c.name := by
        refine List.find?_congr ?_
        intro e he
        have apart : d.name ≠ e.name := by
          intro same
          exact distinct.1 (List.mem_map.2 ⟨e, he, same.symm⟩)
        simp [Std.HashMap.contains_insert, apart]
      rw [if_neg (by simp [fresh])]
      exact ih distinct.2 (others.trans h) (next + 1)

namespace Schema

variable {r s : Schema}

theorem contains_index (r : Schema) (name : String) :
    r.index.contains name = decide (name ∈ r.names) := by
  have found : r.index[name]? = r.names.idxOf? name := r.indexOf?_eq_idxOf? name
  rw [Std.HashMap.contains_eq_isSome_getElem?, found, Bool.eq_iff_iff, decide_eq_true_eq]
  exact List.isSome_idxOf?

theorem ofColumns_of_error {columns : List Column} {e : TableError}
    (h : indexFrom 0 ∅ columns = .error e) : ofColumns columns = .error e := by
  unfold ofColumns
  split
  · rename_i whole
    rw [h] at whole
    cases whole
  · rename_i failed
    rw [h] at failed
    cases failed
    rfl

/-- Of columns that make no schema the first is refused whose name occurred before. -/
theorem ofColumns_of_repeated {before after : List Column} {c : Column}
    (fresh : (before.map Column.name).Nodup) (again : c.name ∈ before.map Column.name) :
    ofColumns (before ++ c :: after) = .error (.duplicateColumn c.name) := by
  let first := ofDistinct before fresh
  have columns : first.columns = before := columns_ofDistinct fresh
  have taken : first.index.contains c.name = true := by
    rw [contains_index, names, columns]
    exact decide_eq_true again
  refine ofColumns_of_error ?_
  rw [← columns, indexFrom_append first.indexed, indexFrom, if_pos taken]

/-- What is in the way of a join is the first column of the second schema whose name the first one
has. -/
theorem join_of_find? {c : Column}
    (h : (s.columns.find? fun c => decide (c.name ∈ r.names)) = some c) :
    r.join s = .error (.duplicateColumn c.name) := by
  have taken : (s.columns.find? fun c => r.index.contains c.name) = some c := by
    simpa only [contains_index] using h
  refine ofColumns_of_error ?_
  rw [indexFrom_append r.indexed]
  exact indexFrom_of_find? s.distinct taken _

theorem exists_join_of_apart (h : ∀ c ∈ s.columns, c.name ∉ r.names) :
    ∃ schema, r.join s = .ok schema := by
  refine exists_ofColumns ?_
  rw [List.map_append, List.nodup_append]
  refine ⟨r.distinct, s.distinct, ?_⟩
  intro name left other right same
  obtain ⟨c, hc, rfl⟩ := List.mem_map.1 right
  exact h c hc (same ▸ left)

theorem join_eq_error_iff {e : TableError} : r.join s = .error e ↔
    ∃ c, (s.columns.find? fun c => decide (c.name ∈ r.names)) = some c ∧
      e = .duplicateColumn c.name := by
  constructor
  · intro refused
    cases found : s.columns.find? fun c => decide (c.name ∈ r.names) with
    | none =>
      have apart : ∀ c ∈ s.columns, c.name ∉ r.names := by
        simpa only [List.find?_eq_none, decide_eq_true_eq] using found
      obtain ⟨schema, joined⟩ := exists_join_of_apart apart
      cases joined.symm.trans refused
    | some c =>
      cases (join_of_find? found).symm.trans refused
      exact ⟨c, rfl, rfl⟩
  · rintro ⟨c, found, rfl⟩
    exact join_of_find? found

end Schema
end PullAlgebra
