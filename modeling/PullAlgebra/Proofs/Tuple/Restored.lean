import Mathlib.Data.List.Find
import PullAlgebra.Proofs.Schema.Position
import PullAlgebra.Proofs.Tuple.Formation

/-!
# PullAlgebra.Proofs.Tuple.Restored

Fields whose values are in the form of their columns already. To build a tuple from them is to
compare their names, so a tuple is rebuilt from its own fields, and to join two tuples is to build
one from the fields of both. By name a tuple is read through the index of its own schema, which is
never refused and never leads past the last field.

* `ofFields_of_stored`: the tuple of such fields; `ofFields_of_repeated` that there is none.
* `join_eq_ofFields`: nothing but names is in the way of a join.
* `ofColumns_columns`, `field?_eq`, `lt_of_indexOf?`: the schema of a tuple, and its fields by name.
-/

namespace PullAlgebra

namespace Tuple

/-- What is in the way of such fields is the first of them whose name occurred earlier. -/
theorem storeAll_of_stored {earlier : List String} {fs : List Field}
    (distinct : (fs.map Field.name).Nodup) (stored : ∀ f ∈ fs, f.Stored) :
    storeAll earlier fs = match fs.find? fun f => decide (f.name ∈ earlier) with
      | some f => .error (.duplicateColumn f.name)
      | none => .ok fs := by
  induction fs generalizing earlier with
  | nil => rfl
  | cons f rest ih =>
    rw [List.map_cons, List.nodup_cons] at distinct
    have first := stored f (List.mem_cons_self ..)
    by_cases hf : f.name ∈ earlier
    · simp [storeAll, Field.stored?_of_stored first, hf]
    · -- the names of the rest are not that of `f`, so it does not count as an earlier one
      have others : (rest.find? fun g => decide (g.name ∈ f.name :: earlier)) =
          rest.find? fun g => decide (g.name ∈ earlier) := by
        refine List.find?_congr ?_
        intro g hg
        have apart : g.name ≠ f.name := by
          intro same
          exact distinct.1 (List.mem_map.2 ⟨g, hg, same⟩)
        simp [apart]
      rw [storeAll_cons (Field.stored?_of_stored first) hf,
        ih distinct.2 fun g hg => stored g (List.mem_cons_of_mem _ hg), others,
        List.find?_cons_of_neg (by simpa using hf)]
      cases rest.find? fun g => decide (g.name ∈ earlier) <;> rfl

theorem ofFields_of_stored {fields : List Field} (distinct : (fields.map Field.name).Nodup)
    (stored : ∀ f ∈ fields, f.Stored) : ofFields fields = .ok ⟨fields, distinct, stored⟩ :=
  ofFields_fields ⟨fields, distinct, stored⟩

/-- Of such fields the first is refused whose name occurred before. -/
theorem ofFields_of_repeated {before after : List Field} {f : Field}
    (stored : ∀ g ∈ before ++ f :: after, g.Stored) (fresh : (before.map Field.name).Nodup)
    (again : f.name ∈ before.map Field.name) :
    ofFields (before ++ f :: after) = .error (.duplicateColumn f.name) := by
  obtain ⟨earlier, later⟩ := List.forall_mem_append.1 stored
  have taken : f.Accepted := (List.forall_mem_cons.1 later).1.accepted
  exact ofFields_of_fault (.repeated rfl (fun g hg => (earlier g hg).accepted) fresh taken again)

theorem stored_append (t u : Tuple) : ∀ f ∈ t.fields ++ u.fields, f.Stored := by
  intro f hf
  exact (List.mem_append.1 hf).elim (t.stored f) (u.stored f)

/-- To check all values and names of both tuples again comes to the same as comparing the names of
one with those of the other. -/
theorem join_eq_ofFields (t u : Tuple) : t.join u = ofFields (t.fields ++ u.fields) := by
  have found : (u.fields.find? fun f => decide (f.name ∈ (t.fields.map Field.name).reverse ++ [])) =
      u.fields.find? fun f => t.fields.any fun g => g.name == f.name := by
    congr 1
    funext f
    rw [Bool.eq_iff_iff]
    simp
  have fresh : ∀ f ∈ t.fields, f.name ∉ [] := by simp
  have whole : storeAll [] (t.fields ++ u.fields) = _ :=
    storeAll_append (Field.checked_of_stored t.stored) t.distinct fresh u.fields
  rw [storeAll_of_stored u.distinct u.stored, found] at whole
  unfold join
  split
  · rename_i f hf
    rw [hf] at whole
    rw [ofFields_of_storeAll_error whole]
  · rename_i none
    rw [none] at whole
    obtain ⟨v, built, fields⟩ := ofFields_of_storeAll whole
    rw [built]
    exact congrArg Except.ok (ext_fields fields.symm)

/-! ## Fields by name -/

theorem columns_schema (t : Tuple) : t.schema.columns = t.columns :=
  Schema.columns_ofDistinct t.distinct_columns

/-- The names of a tuple's columns are never in the way of its schema. -/
theorem ofColumns_columns (t : Tuple) : Schema.ofColumns t.columns = .ok t.schema :=
  Schema.ofColumns_of_distinct t.distinct_columns

theorem names_schema (t : Tuple) : t.schema.names = t.fields.map Field.name := by
  rw [Schema.names, columns_schema, columns, List.map_map]
  rfl

theorem lt_of_indexOf? {t : Tuple} {name : String} {i : Nat} (h : t.schema.indexOf? name = some i) :
    i < t.fields.length := by
  rw [Schema.indexOf?_eq_some_iff, names_schema] at h
  simpa using (List.getElem?_eq_some_iff.1 h).1

/-- The field with a name is the one at the position that the schema has for the name. -/
theorem field?_eq (t : Tuple) (name : String) :
    t.field? name = (t.schema.indexOf? name).bind fun i => t.fields[i]? := by
  rw [Schema.indexOf?_eq_idxOf?, names_schema, bind_idxOf?_eq_find?]
  rfl

end Tuple
end PullAlgebra
