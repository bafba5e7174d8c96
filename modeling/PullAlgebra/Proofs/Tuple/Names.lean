import PullAlgebra.Proofs.Relation.Growth

/-!
# PullAlgebra.Proofs.Tuple.Names

Values by name, through the operations on tuples. Names are distinct, so a field that a tuple has is
the one that is found under its name, wherever it stands.

* `field?_of_mem`: the field under a name.
* `get?_of_perm`, `get?_of_join_left`, `get?_of_join_right`, `get?_of_project`: in a tuple that is
  reordered, extended on either side, or projected.
-/

namespace PullAlgebra
namespace Tuple

variable {t u v : Tuple}

theorem name_mem_schema_iff {name : String} :
    name ∈ t.schema.names ↔ ∃ f ∈ t.fields, f.name = name := by
  rw [names_schema, List.mem_map]

theorem field?_of_mem {f : Field} (h : f ∈ t.fields) : t.field? f.name = some f := by
  cases found : t.field? f.name with
  | none => simpa using List.find?_eq_none.1 found f h
  | some g =>
    have same : g.name = f.name := by simpa using List.find?_some found
    rw [List.inj_on_of_nodup_map t.distinct (List.mem_of_find?_eq_some found) h same]

theorem get?_of_mem {f : Field} (h : f ∈ t.fields) : t.get? f.name = some f.value := by
  rw [get?, field?_of_mem h, Option.map_some]

theorem name_mem_schema_iff_get? {name : String} :
    name ∈ t.schema.names ↔ ∃ v, t.get? name = some v := by
  rw [name_mem_schema_iff]
  constructor
  · rintro ⟨f, hf, rfl⟩
    exact ⟨f.value, get?_of_mem hf⟩
  · rintro ⟨v, h⟩
    obtain ⟨f, found, -⟩ := Option.map_eq_some_iff.1 h
    exact ⟨f, List.mem_of_find?_eq_some found, by simpa using List.find?_some found⟩

theorem get?_of_perm (same : u.fields.Perm t.fields) (name : String) :
    u.get? name = t.get? name := by
  have found : u.field? name = t.field? name := by
    refine List.find?_eq_find?_of_perm same ?_
    rintro f ⟨hf, named⟩ g ⟨hg, named'⟩
    exact List.inj_on_of_nodup_map u.distinct hf hg ((eq_of_beq named).trans (eq_of_beq named').symm)
  rw [get?, get?, found]

theorem fields_of_join (h : t.join u = .ok v) : v.fields = t.fields ++ u.fields := by
  unfold join at h
  split at h
  · cases h
  · cases h; rfl

theorem get?_of_join_left (h : t.join u = .ok v) {name : String} (known : name ∈ t.schema.names) :
    v.get? name = t.get? name := by
  obtain ⟨f, hf, rfl⟩ := name_mem_schema_iff.1 known
  have kept : f ∈ v.fields := by
    rw [fields_of_join h]
    exact List.mem_append_left _ hf
  rw [get?_of_mem kept, get?_of_mem hf]

theorem get?_of_join_right (h : t.join u = .ok v) {name : String} (known : name ∈ u.schema.names) :
    v.get? name = u.get? name := by
  obtain ⟨f, hf, rfl⟩ := name_mem_schema_iff.1 known
  have kept : f ∈ v.fields := by
    rw [fields_of_join h]
    exact List.mem_append_right _ hf
  rw [get?_of_mem kept, get?_of_mem hf]

/-! ## Projections -/

theorem fields_of_ofFields {fields : List Field} (stored : ∀ f ∈ fields, f.Stored)
    (h : ofFields fields = .ok t) : t.fields = fields := by
  have distinct : (fields.map Field.name).Nodup := by
    unfold ofFields at h
    split at h
    · rename_i kept
      exact (distinct_of_storeAll kept).1
    · cases h
  rw [ofFields_of_stored distinct stored] at h
  cases h
  rfl

theorem pick_eq_ok {output : OutputColumn} {g : Field} (h : t.pick output = .ok g) :
    ∃ f ∈ t.fields, f.name = output.column ∧
      g = { f with column := f.column.renamed output.name } := by
  unfold pick at h
  split at h
  · rename_i f found
    cases h
    have named : f.name = output.column := by simpa using List.find?_some found
    exact ⟨f, List.mem_of_find?_eq_some found, named, rfl⟩
  · cases h

/-- A new name leaves the type of the column, and so the form of its values. -/
theorem stored_of_mapM_pick {outputs : List OutputColumn} {fields : List Field}
    (h : outputs.mapM t.pick = .ok fields) : ∀ f ∈ fields, f.Stored := by
  intro g hg
  obtain ⟨output, -, picked⟩ := Relation.exists_of_mapM_eq_ok h g hg
  obtain ⟨f, hf, -, rfl⟩ := pick_eq_ok picked
  exact t.stored f hf

theorem fields_of_project {outputs : List OutputColumn} (h : t.project outputs = .ok u) :
    List.Forall₂ (fun output f => t.pick output = .ok f) outputs u.fields := by
  obtain ⟨picked, hp, built⟩ := bind_eq_ok h
  rw [fields_of_ofFields (stored_of_mapM_pick hp) built]
  exact forall₂_of_mapM_eq_ok hp

theorem get?_of_project {outputs : List OutputColumn} (h : t.project outputs = .ok u)
    {output : OutputColumn} (chosen : output ∈ outputs) :
    u.get? output.name = t.get? output.column := by
  obtain ⟨g, hg, picked⟩ := exists_of_forall₂_left (fields_of_project h) chosen
  obtain ⟨f, hf, named, rfl⟩ := pick_eq_ok picked
  rw [← named, get?_of_mem hf]
  exact get?_of_mem hg

end Tuple
end PullAlgebra
