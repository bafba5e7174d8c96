import PullAlgebra.Proofs.Tuple.CanonicalForm
import PullAlgebra.Proofs.Tuple.Operations

/-!
# PullAlgebra.Proofs.Tuple.Composition

A choice of columns from a choice of columns. A column of the second choice is one of the first under
the name that it got there, so it can be taken from where the first choice takes it and go by the name
that it gets in the end. The names in between count no longer then, whichever columns they hid.

* `OutputColumn.through`, `fused`: one choice in place of two.
* `Schema.project_of_sameColumns`: the order of the columns makes no difference to a choice.
* `Schema.project_project`, `Tuple.project_project`: to choose twice is to choose by `fused`.
-/

namespace PullAlgebra

/-- The column of a choice from what an earlier choice puts out, as a column of that one's input. -/
def OutputColumn.through (first : List OutputColumn) (output : OutputColumn) : OutputColumn :=
  match first.find? fun o => o.name == output.column with
  | some o => ⟨o.column, some output.name⟩
  | none => output

/-- The choice that comes to the same as two choices, one after the other. -/
def fused (first second : List OutputColumn) : List OutputColumn :=
  second.map (OutputColumn.through first)

theorem OutputColumn.exists_through {first : List OutputColumn} {output : OutputColumn}
    (known : output.column ∈ first.map name) :
    ∃ o ∈ first, o.name = output.column ∧ output.through first = ⟨o.column, some output.name⟩ := by
  unfold through
  cases found : first.find? fun o => o.name == output.column with
  | none =>
    obtain ⟨o, ho, named⟩ := List.mem_map.1 known
    simpa [named] using List.find?_eq_none.1 found o ho
  | some o => exact ⟨o, List.mem_of_find?_eq_some found, by simpa using List.find?_some found, rfl⟩

variable {first second : List OutputColumn}

/-! ## Schemas -/

namespace Schema

variable {s t : Schema}

theorem column?_of_sameColumns (same : s.sameColumns t = true) (name : String) :
    s.column? name = t.column? name := by
  rw [column?_eq_find?, column?_eq_find?]
  refine List.find?_eq_find?_of_perm (sameColumns_iff_perm.1 same) ?_
  rintro c ⟨hc, named⟩ d ⟨hd, named'⟩
  exact List.inj_on_of_nodup_map s.distinct hc hd ((eq_of_beq named).trans (eq_of_beq named').symm)

theorem project_of_sameColumns (same : s.sameColumns t = true) (outputs : List OutputColumn) :
    s.project outputs = t.project outputs := by
  have picks : s.pick = t.pick := by
    funext output
    unfold pick
    rw [column?_of_sameColumns same]
  rw [project, project, picks]

theorem picked_of_project {outputs : List OutputColumn} (h : s.project outputs = .ok t) :
    List.Forall₂ (fun output c => s.pick output = .ok c) outputs t.columns := by
  obtain ⟨picked, hp, built⟩ := bind_eq_ok h
  rw [columns_of_ofColumns built]
  exact forall₂_of_mapM_eq_ok hp

/-- The column that is chosen under the name that it got is the one that was chosen there. -/
theorem pick_through (h : s.project first = .ok t) {output : OutputColumn}
    (known : output.column ∈ first.map OutputColumn.name) :
    s.pick (output.through first) = t.pick output := by
  obtain ⟨o, ho, named, through⟩ := OutputColumn.exists_through known
  obtain ⟨c, hc, picked⟩ := exists_of_forall₂_left (picked_of_project h) ho
  have found : t.column? output.column = some c := by
    rw [← named, ← name_of_pick picked]
    exact column?_of_mem hc
  rw [through]
  unfold pick at picked ⊢
  rw [found]
  split at picked
  · rename_i source
    cases picked
    simp only [source]
    rfl
  · cases picked

theorem project_project (h : s.project first = .ok t)
    (known : ∀ o ∈ second, o.column ∈ first.map OutputColumn.name) :
    t.project second = s.project (fused first second) := by
  have picks : second.mapM t.pick = (fused first second).mapM s.pick := by
    rw [fused, List.mapM_map]
    exact mapM_congr fun o ho => (pick_through h (known o ho)).symm
  rw [project, project, picks]

end Schema

/-! ## Tuples -/

namespace Tuple

variable {t u : Tuple} {s : Schema}

theorem values_eq_of_project {outputs : List OutputColumn} (h : t.project outputs = .ok u) :
    u.values.map some = outputs.map fun output => t.get? output.column := by
  rw [values, List.map_map]
  exact (map_eq_map_iff_forall₂.2 ((values_of_project h).imp fun _ _ value => value.2)).symm

theorem get?_through (h : t.project first = .ok u) {output : OutputColumn}
    (known : output.column ∈ first.map OutputColumn.name) :
    t.get? (output.through first).column = u.get? output.column := by
  obtain ⟨o, ho, named, through⟩ := OutputColumn.exists_through known
  rw [through, ← named, get?_of_project h ho]

/-- Two results with the same schema or the same error are the same if, as tuples, they have the same
values. -/
theorem result_ext {x y : Except TableError Tuple} (same : x.map schema = y.map schema)
    (values : ∀ t u, x = .ok t → y = .ok u → t.values = u.values) : x = y := by
  cases x with
  | error e => exact ((eq_error_iff same.symm).2 rfl).symm
  | ok t =>
    obtain ⟨u, rfl, equal⟩ := map_eq_ok same.symm
    have columns : t.columns = u.columns := by
      rw [← t.columns_schema, ← u.columns_schema, equal]
    rw [eq_of_values columns (values t u rfl rfl)]

theorem project_project (h : t.project first = .ok u)
    (known : ∀ o ∈ second, o.column ∈ first.map OutputColumn.name) :
    u.project second = t.project (fused first second) := by
  have chosen : t.schema.project first = .ok u.schema := by
    rw [← schema_project, h]
    rfl
  refine result_ext ?_ fun v w hv hw => ?_
  · rw [schema_project, schema_project, Schema.project_project chosen known]
  · refine (List.map_inj_right fun _ _ => Option.some.inj).1 ?_
    rw [values_eq_of_project hv, values_eq_of_project hw, fused, List.map_map]
    exact List.map_congr_left fun o ho => (get?_through h (known o ho)).symm

theorem exists_project_of_fits (fits : t.fits s = true) {s' : Schema}
    {outputs : List OutputColumn} (h : s.project outputs = .ok s') :
    ∃ u, t.project outputs = .ok u ∧ u.schema = s' := by
  have chosen : (t.project outputs).map schema = .ok s' := by
    rw [schema_project, Schema.project_of_sameColumns fits, h]
  exact map_eq_ok chosen

end Tuple
end PullAlgebra
