import Mathlib.Data.List.Nodup
import PullAlgebra.Relation

/-!
# PullAlgebra.Proofs.Schema.Position

Names against positions. The index of a schema finds a name where a search of the columns finds it,
and a tuple that has the columns of a schema, in its order, has each field at the position of its
column. Hence rows of relations whose schemas can be joined can be joined too.

* `indexOf?_eq_some_iff`, `column?_eq_find?`: the index agrees with the list of columns.
* `indexOf?_of_join_left`, `indexOf?_of_join_right`: where a joined schema has its columns.
* `Tuple.column_field?`, `Tuple.get?_eq`: fields by name and by position.
* `Tuple.exists_join`: rows of relations with a joined schema.
-/

namespace PullAlgebra

theorem getElem?_of_indexFrom {columns : List Column} {next : Nat}
    {index whole : Std.HashMap String Nat} (h : indexFrom next index columns = .ok whole)
    (name : String) :
    whole[name]? = (((columns.map Column.name).idxOf? name).map (next + ·)).or index[name]? := by
  induction columns generalizing next index with
  | nil => cases h; simp
  | cons c rest ih =>
    have fresh := (distinct_of_indexFrom h).1
    unfold indexFrom at h
    split at h
    · cases h
    · rw [ih h, List.map_cons, List.idxOf?_cons, Std.HashMap.getElem?_insert]
      by_cases hc : c.name = name
      · -- a name stands once, so the rest of the columns does not have it
        have : (rest.map Column.name).idxOf? name = none := by
          rw [List.idxOf?_eq_none_iff, ← hc]
          rw [List.map_cons, List.nodup_cons] at fresh
          exact fresh.1
        simp [hc, this]
      · have shift : (fun i => next + 1 + i) = fun i => next + (i + 1) := by
          funext i; omega
        simp [hc, Option.map_map, Function.comp_def, shift]

theorem bind_idxOf?_eq_find? {α : Type} (name : α → String) (as : List α) (n : String) :
    (((as.map name).idxOf? n).bind fun i => as[i]?) = as.find? fun a => name a == n := by
  induction as with
  | nil => rfl
  | cons a rest ih =>
    rw [List.map_cons, List.idxOf?_cons, List.find?_cons, ← ih]
    by_cases h : name a = n
    · simp [h]
    · have : (name a == n) = false := by simpa using h
      simp only [this, Bool.false_eq_true, if_false, Option.bind_map, Function.comp_def,
      List.getElem?_cons_succ]

namespace Schema

theorem indexOf?_eq_idxOf? (s : Schema) (name : String) : s.indexOf? name = s.names.idxOf? name := by
  have := getElem?_of_indexFrom s.indexed name
  simpa [indexOf?, names] using this

theorem indexOf?_eq_some_iff {s : Schema} {name : String} {i : Nat} :
    s.indexOf? name = some i ↔ s.names[i]? = some name := by
  rw [indexOf?_eq_idxOf?, List.idxOf?_eq_some_iff, List.getElem?_eq_some_iff]
  constructor
  · rintro ⟨hi, rfl, -⟩
    exact ⟨hi, rfl⟩
  · rintro ⟨hi, rfl⟩
    refine ⟨hi, rfl, ?_⟩
    intro j hj e
    have := (List.Nodup.getElem_inj_iff s.distinct).1 e
    omega

theorem indexOf?_of_mem {s : Schema} {name : String} (h : name ∈ s.names) :
    ∃ i, s.indexOf? name = some i := by
  obtain ⟨i, hi⟩ := List.getElem?_of_mem h
  exact ⟨i, indexOf?_eq_some_iff.2 hi⟩

theorem mem_of_indexOf? {s : Schema} {name : String} {i : Nat} (h : s.indexOf? name = some i) :
    name ∈ s.names :=
  List.mem_of_getElem? (indexOf?_eq_some_iff.1 h)

theorem indexOf?_ofDistinct {columns : List Column} {distinct : (columns.map Column.name).Nodup}
    {name : String} {i : Nat} (h : (columns.map Column.name)[i]? = some name) :
    (ofDistinct columns distinct).indexOf? name = some i := by
  rw [indexOf?_eq_some_iff, names, columns_ofDistinct]
  exact h

theorem column?_eq_find? (s : Schema) (name : String) :
    s.column? name = s.columns.find? fun c => c.name == name := by
  rw [column?, ← bind_idxOf?_eq_find?, ← names, ← indexOf?_eq_idxOf?]

theorem column?_of_mem {s : Schema} {c : Column} (h : c ∈ s.columns) : s.column? c.name = some c := by
  obtain ⟨i, hi⟩ := List.getElem?_of_mem h
  have position : s.indexOf? c.name = some i := by
    rw [indexOf?_eq_some_iff, names, List.getElem?_map, hi, Option.map_some]
  rw [column?, position, Option.bind_some, hi]

theorem columns_of_join {r s t : Schema} (h : r.join s = .ok t) :
    t.columns = r.columns ++ s.columns := columns_of_ofColumns h

theorem names_of_join {r s t : Schema} (h : r.join s = .ok t) : t.names = r.names ++ s.names := by
  rw [names, columns_of_join h, List.map_append]
  rfl

theorem indexOf?_of_join_left {r s t : Schema} (h : r.join s = .ok t) {name : String} {i : Nat}
    (hi : r.indexOf? name = some i) : t.indexOf? name = some i := by
  rw [indexOf?_eq_some_iff] at hi ⊢
  rw [names_of_join h, List.getElem?_append_left (List.getElem?_eq_some_iff.1 hi).1]
  exact hi

theorem indexOf?_of_join_right {r s t : Schema} (h : r.join s = .ok t) {name : String} {i : Nat}
    (hi : s.indexOf? name = some i) : t.indexOf? name = some (r.size + i) := by
  rw [indexOf?_eq_some_iff] at hi ⊢
  have size : r.size = r.names.length := (List.length_map _).symm
  rw [names_of_join h, size, List.getElem?_append_right (Nat.le_add_right _ _),
    Nat.add_sub_cancel_left]
  exact hi

end Schema

namespace Tuple

theorem size_eq {t : Tuple} {s : Schema} (h : t.columns = s.columns) :
    t.fields.length = s.size := by
  rw [Schema.size, ← h, columns, List.length_map]

theorem column_field? {t : Tuple} {s : Schema} (h : t.columns = s.columns) (name : String) :
    (t.field? name).map Field.column = s.column? name := by
  rw [Schema.column?_eq_find?, ← h, columns, List.find?_map]
  rfl

theorem exists_field {t : Tuple} {s : Schema} (h : t.columns = s.columns) {i : Nat} {c : Column}
    (hi : s.columns[i]? = some c) : ∃ f, t.fields[i]? = some f ∧ f.column = c := by
  rw [← h, columns, List.getElem?_map, Option.map_eq_some_iff] at hi
  exact hi

theorem get?_eq {t : Tuple} {s : Schema} (h : t.columns = s.columns) {name : String} {i : Nat}
    (hi : s.indexOf? name = some i) : t.get? name = t.fields[i]?.map Field.value := by
  have names : t.fields.map Field.name = s.names := by
    rw [Schema.names, ← h, columns, List.map_map]
    rfl
  rw [Schema.indexOf?_eq_idxOf?, ← names] at hi
  have found := bind_idxOf?_eq_find? Field.name t.fields name
  rw [hi, Option.bind_some] at found
  rw [get?, field?, ← found]

/-- A name that was found at a position is the name of the value there. -/
theorem exists_get? {t : Tuple} {s : Schema} (h : t.columns = s.columns) {name : String} {i : Nat}
    (hi : s.indexOf? name = some i) :
    ∃ f, t.fields[i]? = some f ∧ t.get? name = some f.value := by
  have bound : i < t.fields.length := by
    have within := (List.getElem?_eq_some_iff.1 (Schema.indexOf?_eq_some_iff.1 hi)).1
    rwa [Schema.names, List.length_map, ← h, columns, List.length_map] at within
  refine ⟨t.fields[i], List.getElem?_eq_getElem bound, ?_⟩
  rw [get?_eq h hi, List.getElem?_eq_getElem bound, Option.map_some]

theorem exists_join {r s schema : Schema} (h : r.join s = .ok schema) {t u : Tuple}
    (ht : t.columns = r.columns) (hu : u.columns = s.columns) :
    ∃ v, t.join u = .ok v ∧ v.fields = t.fields ++ u.fields := by
  have disjoint : (t.columns.map Column.name ++ u.columns.map Column.name).Nodup := by
    rw [ht, hu, ← List.map_append, ← Schema.columns_of_join h]
    exact schema.distinct
  have none : u.fields.find? (fun f => t.fields.any fun g => g.name == f.name) = none := by
    simp only [List.find?_eq_none, List.any_eq_true, beq_iff_eq]
    rintro f hf ⟨g, hg, e⟩
    have apart := (List.nodup_append.1 disjoint).2.2 g.name (by
      simp only [columns, List.map_map]
      exact List.mem_map_of_mem hg) f.name (by
      simp only [columns, List.map_map]
      exact List.mem_map_of_mem hf)
    exact apart e
  unfold join
  split
  · rename_i hf
    rw [none] at hf
    cases hf
  · exact ⟨_, rfl, rfl⟩

end Tuple
end PullAlgebra
