import PullAlgebra.Proofs.Result
import PullAlgebra.Proofs.Schema.Collision

/-!
# PullAlgebra.Proofs.Schema.Projection

Which choices of columns make a schema. All columns are looked up before any names are compared, so
an unknown column is reported even where a name is repeated before it.

* `exists_pick`, `pick_of_unknown`: one column of a choice.
* `ProjectionFault`: what is wrong with a choice.
* `exists_project`, `project_of_fault`: the two answers; `project_eq_error_iff` that there are no
  others.
-/

namespace PullAlgebra
namespace Schema

variable {s : Schema} {outputs : List OutputColumn}

theorem exists_pick {output : OutputColumn} (known : output.column ∈ s.names) :
    ∃ c, s.pick output = .ok c := by
  obtain ⟨d, hd, named⟩ := List.mem_map.1 known
  have found : s.column? output.column = some d := named ▸ column?_of_mem hd
  exact ⟨d.renamed output.name, by simp only [pick, found]⟩

theorem pick_of_unknown {output : OutputColumn} (unknown : output.column ∉ s.names) :
    s.pick output = .error (.unknownProjected output.column) := by
  have absent : s.column? output.column = none := by
    rw [column?_eq_find?, List.find?_eq_none]
    intro c hc named
    exact unknown (List.mem_map.2 ⟨c, hc, eq_of_beq named⟩)
  simp only [pick, absent]

theorem name_of_pick {output : OutputColumn} {c : Column} (h : s.pick output = .ok c) :
    c.name = output.name := by
  unfold pick at h
  split at h
  · cases h; rfl
  · cases h

theorem exists_mapM_pick (known : ∀ o ∈ outputs, o.column ∈ s.names) :
    ∃ columns, outputs.mapM s.pick = .ok columns ∧
      columns.map Column.name = outputs.map OutputColumn.name := by
  obtain ⟨columns, picked⟩ := exists_forall₂ fun o ho => exists_pick (known o ho)
  refine ⟨columns, mapM_eq_ok_of_forall₂ picked, ?_⟩
  exact map_eq_map_iff_forall₂.2 (picked.flip.imp fun _ _ => name_of_pick)

/-- What is wrong with a choice of columns: one of them is unknown, or else a name is repeated. -/
inductive ProjectionFault (s : Schema) (outputs : List OutputColumn) : TableError → Prop
  | unknown {before after : List OutputColumn} {output : OutputColumn}
      (split : outputs = before ++ output :: after)
      (known : ∀ o ∈ before, o.column ∈ s.names) (unknown : output.column ∉ s.names) :
      ProjectionFault s outputs (.unknownProjected output.column)
  | repeated {before after : List OutputColumn} {output : OutputColumn}
      (known : ∀ o ∈ outputs, o.column ∈ s.names)
      (split : outputs = before ++ output :: after)
      (fresh : (before.map OutputColumn.name).Nodup)
      (again : output.name ∈ before.map OutputColumn.name) :
      ProjectionFault s outputs (.duplicateColumn output.name)

theorem exists_project (known : ∀ o ∈ outputs, o.column ∈ s.names)
    (distinct : (outputs.map OutputColumn.name).Nodup) : ∃ t, s.project outputs = .ok t := by
  obtain ⟨columns, picked, names⟩ := exists_mapM_pick known
  obtain ⟨t, built⟩ := exists_ofColumns (names ▸ distinct)
  exact ⟨t, by rw [project, picked]; exact built⟩

theorem project_of_fault {e : TableError} (h : s.ProjectionFault outputs e) :
    s.project outputs = .error e := by
  cases h with
  | @unknown before after output split known unknown =>
    rw [project, split,
      mapM_eq_error (fun o ho => exists_pick (known o ho)) (pick_of_unknown unknown)]
    rfl
  | @repeated before after output known split fresh again =>
    obtain ⟨columns, picked, names⟩ := exists_mapM_pick known
    rw [split, List.map_append, List.map_cons] at names
    -- the names of the columns are the new ones, so they are repeated at the same place
    obtain ⟨first, rest, rfl, firstNames, restNames⟩ := List.map_eq_append_iff.1 names
    obtain ⟨c, last, rfl, named, -⟩ := List.map_eq_cons_iff.1 restNames
    rw [project, picked, ← named]
    rw [← firstNames] at fresh again
    exact ofColumns_of_repeated fresh (named ▸ again)

theorem sound_or_fault (s : Schema) (outputs : List OutputColumn) :
    ((∀ o ∈ outputs, o.column ∈ s.names) ∧ (outputs.map OutputColumn.name).Nodup) ∨
      ∃ e, s.ProjectionFault outputs e := by
  rcases forall_or_first (fun o : OutputColumn => o.column ∈ s.names) outputs with
    known | ⟨before, output, after, split, known, unknown⟩
  · rcases nodup_or_repeated OutputColumn.name outputs with
      distinct | ⟨before, output, after, split, fresh, again⟩
    · exact .inl ⟨known, distinct⟩
    · exact .inr ⟨_, .repeated known split fresh again⟩
  · exact .inr ⟨_, .unknown split known unknown⟩

theorem project_eq_error_iff {e : TableError} :
    s.project outputs = .error e ↔ s.ProjectionFault outputs e := by
  constructor
  · intro refused
    rcases s.sound_or_fault outputs with ⟨known, distinct⟩ | ⟨e', fault⟩
    · obtain ⟨t, projected⟩ := exists_project known distinct
      cases projected.symm.trans refused
    · cases (project_of_fault fault).symm.trans refused
      exact fault
  · exact project_of_fault

end Schema
end PullAlgebra
