import PullAlgebra.Proofs.Result
import PullAlgebra.Tuple

/-!
# PullAlgebra.Proofs.Tuple.Formation

Which fields make a tuple, and what they become in it. The fields are taken one after the other: of
each the value is brought into the form of its column, and then its name is looked for among the
earlier ones. So the first field that is in the way is reported, as refused if its column does not
accept the value, whatever its name is.

* `Field.Accepted`: a column accepts a value.
* `Tuple.storeAll_append`: what becomes of fields that are accepted, before any others.
* `Tuple.FormationFault`: what is in the way of a tuple.
* `Tuple.exists_ofFields`, `Tuple.ofFields_of_fault`: the two answers; `Tuple.sound_or_fault` that
  every list of fields has one of them.
* `Tuple.well_formed_fields_normalized`: which fields make a tuple, and that they are brought into
  their form once and for all.
-/

namespace PullAlgebra

namespace Field

variable {f g : Field}

/-- The column accepts the value: there is a form in which it keeps it. -/
def Accepted (f : Field) : Prop := ∃ g, f.stored? = some g

theorem stored?_of_stored (h : f.Stored) : f.stored? = some f := by
  rw [stored?, ColumnType.stored?_of_stores h]
  rfl

theorem Stored.accepted (h : f.Stored) : f.Accepted := ⟨f, stored?_of_stored h⟩

theorem checked_of_stored {fields : List Field} (stored : ∀ f ∈ fields, f.Stored) :
    List.Forall₂ (fun f g => f.stored? = some g) fields fields :=
  List.forall₂_same.2 fun f hf => stored?_of_stored (stored f hf)

theorem stored?_of_not_accepted (h : ¬f.Accepted) : f.stored? = none :=
  Option.eq_none_iff_forall_ne_some.2 fun g taken => h ⟨g, taken⟩

/-- The field is another one with its value in the form of the column, which is a form of its own:
the value is of the type of the column, a number is finite, and the column keeps it as it is. -/
structure NormalizedTo (f g : Field) : Prop where
  column_eq : g.column = f.column
  kept : f.column.type.stored? f.value = some g.value
  type_eq : g.value.type = g.column.type
  finite : ∀ x, g.value = .float x → x.isFinite
  again : g.column.type.stored? g.value = some g.value

theorem normalizedTo (h : f.stored? = some g) : NormalizedTo f g := by
  obtain ⟨column, stored⟩ := stored?_eq_some h
  obtain ⟨v, kept, rfl⟩ := Option.map_eq_some_iff.1 h
  exact ⟨column, kept, stored.1, stored.2, ColumnType.stored?_of_stores stored⟩

end Field

namespace Tuple

variable {fields : List Field}

/-! ## Field by field -/

theorem storeAll_cons {earlier : List String} {f g : Field} (taken : f.stored? = some g)
    (fresh : f.name ∉ earlier) (rest : List Field) :
    storeAll earlier (f :: rest) = (storeAll (f.name :: earlier) rest).map (g :: ·) := by
  simp only [storeAll, taken, if_neg fresh]

/-- Accepted fields with new names come first, in the form of their columns, and the names of all of
them count as earlier ones from then on. -/
theorem storeAll_append {earlier : List String} {fs kept : List Field}
    (checked : List.Forall₂ (fun f g => f.stored? = some g) fs kept)
    (distinct : (fs.map Field.name).Nodup) (fresh : ∀ f ∈ fs, f.name ∉ earlier) (gs : List Field) :
    storeAll earlier (fs ++ gs) =
      (storeAll ((fs.map Field.name).reverse ++ earlier) gs).map (kept ++ ·) := by
  induction checked generalizing earlier with
  | nil => cases h : storeAll earlier gs <;> simp [h, Except.map]
  | @cons f g fs kept taken _ ih =>
    rw [List.map_cons, List.nodup_cons] at distinct
    obtain ⟨first, others⟩ := List.forall_mem_cons.1 fresh
    have later : ∀ x ∈ fs, x.name ∉ f.name :: earlier := by
      intro x hx
      have apart : x.name ≠ f.name := by
        intro same
        exact distinct.1 (List.mem_map.2 ⟨x, hx, same⟩)
      simpa [apart] using others x hx
    rw [List.cons_append, storeAll_cons taken first, ih distinct.2 later, List.map_cons,
      List.reverse_cons, List.append_assoc, List.singleton_append]
    cases storeAll ((fs.map Field.name).reverse ++ f.name :: earlier) gs <;> rfl

theorem ofFields_of_storeAll {kept : List Field} (h : storeAll [] fields = .ok kept) :
    ∃ t, ofFields fields = .ok t ∧ t.fields = kept := by
  unfold ofFields
  split
  · rename_i kept' h'
    rw [h] at h'
    cases h'
    exact ⟨_, rfl, rfl⟩
  · rename_i h'
    rw [h] at h'
    cases h'

theorem ofFields_of_storeAll_error {e : TableError} (h : storeAll [] fields = .error e) :
    ofFields fields = .error e := by
  unfold ofFields
  split
  · rename_i h'
    rw [h] at h'
    cases h'
  · rename_i h'
    rw [h] at h'
    cases h'
    rfl

theorem exists_ofFields {kept : List Field}
    (checked : List.Forall₂ (fun f g => f.stored? = some g) fields kept)
    (distinct : (fields.map Field.name).Nodup) : ∃ t, ofFields fields = .ok t ∧ t.fields = kept := by
  have whole : storeAll [] (fields ++ []) = _ := storeAll_append checked distinct (by simp) []
  rw [List.append_nil, List.append_nil] at whole
  refine ofFields_of_storeAll (whole.trans ?_)
  simp [storeAll, Except.map]

/-- A tuple is what its own fields are built into. -/
theorem ofFields_fields (t : Tuple) : ofFields t.fields = .ok t := by
  obtain ⟨u, built, same⟩ := exists_ofFields (Field.checked_of_stored t.stored) t.distinct
  rw [built, ext_fields same]

/-! ## What is in the way -/

/-- What is in the way of a tuple: the first field that its column refuses or, if it accepts it, the
name of which occurred before. -/
inductive FormationFault (fields : List Field) : TableError → Prop
  | refused {before after : List Field} {f : Field} (split : fields = before ++ f :: after)
      (accepted : ∀ g ∈ before, g.Accepted) (fresh : (before.map Field.name).Nodup)
      (refused : ¬f.Accepted) :
      FormationFault fields (.refused f.name f.column.type f.value)
  | repeated {before after : List Field} {f : Field} (split : fields = before ++ f :: after)
      (accepted : ∀ g ∈ before, g.Accepted) (fresh : (before.map Field.name).Nodup)
      (taken : f.Accepted) (again : f.name ∈ before.map Field.name) :
      FormationFault fields (.duplicateColumn f.name)

/-- Fields that are sound are passed, up to the next one, which is the first in question. -/
theorem ofFields_of_next {before after : List Field} {f : Field} {e : TableError}
    (accepted : ∀ g ∈ before, g.Accepted) (fresh : (before.map Field.name).Nodup)
    (next : storeAll (before.map Field.name).reverse (f :: after) = .error e) :
    ofFields (before ++ f :: after) = .error e := by
  obtain ⟨kept, checked⟩ := exists_forall₂ accepted
  have whole : storeAll [] (before ++ f :: after) = _ :=
    storeAll_append checked fresh (by simp) (f :: after)
  refine ofFields_of_storeAll_error (whole.trans ?_)
  rw [List.append_nil, next]
  rfl

theorem ofFields_of_fault {e : TableError} (h : FormationFault fields e) :
    ofFields fields = .error e := by
  cases h with
  | refused split accepted fresh refused =>
    rw [split]
    refine ofFields_of_next accepted fresh ?_
    simp only [storeAll, Field.stored?_of_not_accepted refused]
  | repeated split accepted fresh taken again =>
    obtain ⟨g, taken⟩ := taken
    rw [split]
    refine ofFields_of_next accepted fresh ?_
    simp only [storeAll, taken, List.mem_reverse, if_pos again]

theorem sound_or_fault (fields : List Field) :
    ((∀ f ∈ fields, f.Accepted) ∧ (fields.map Field.name).Nodup) ∨
      ∃ e, FormationFault fields e := by
  -- a name that is repeated among the accepted fields is found before the first refused one
  rcases forall_or_first Field.Accepted fields with
    accepted | ⟨before, f, after, split, accepted, refused⟩
  · rcases nodup_or_repeated Field.name fields with
      distinct | ⟨before, f, after, split, fresh, again⟩
    · exact .inl ⟨accepted, distinct⟩
    · obtain ⟨earlier, later⟩ := List.forall_mem_append.1 (split ▸ accepted)
      exact .inr ⟨_, .repeated split earlier fresh (List.forall_mem_cons.1 later).1 again⟩
  · rcases nodup_or_repeated Field.name before with
      distinct | ⟨first, g, rest, rfl, fresh, again⟩
    · exact .inr ⟨_, .refused split accepted distinct refused⟩
    · obtain ⟨earlier, later⟩ := List.forall_mem_append.1 accepted
      rw [List.append_assoc, List.cons_append] at split
      exact .inr ⟨_, .repeated split earlier fresh (List.forall_mem_cons.1 later).1 again⟩

theorem ofFields_eq_error_iff {e : TableError} :
    ofFields fields = .error e ↔ FormationFault fields e := by
  constructor
  · intro failed
    rcases sound_or_fault fields with ⟨accepted, distinct⟩ | ⟨e', fault⟩
    · obtain ⟨kept, checked⟩ := exists_forall₂ accepted
      obtain ⟨t, built, -⟩ := exists_ofFields checked distinct
      cases built.symm.trans failed
    · cases (ofFields_of_fault fault).symm.trans failed
      exact fault
  · exact ofFields_of_fault

theorem exists_ofFields_iff :
    (∃ t, ofFields fields = .ok t) ↔
      (∀ f ∈ fields, f.Accepted) ∧ (fields.map Field.name).Nodup := by
  constructor
  · rintro ⟨t, built⟩
    rcases sound_or_fault fields with sound | ⟨e, fault⟩
    · exact sound
    · cases built.symm.trans (ofFields_of_fault fault)
  · rintro ⟨accepted, distinct⟩
    obtain ⟨kept, checked⟩ := exists_forall₂ accepted
    obtain ⟨t, built, -⟩ := exists_ofFields checked distinct
    exact ⟨t, built⟩

theorem forall₂_normalizedTo {t : Tuple} (h : ofFields fields = .ok t) :
    List.Forall₂ Field.NormalizedTo fields t.fields := by
  obtain ⟨accepted, distinct⟩ := exists_ofFields_iff.1 ⟨t, h⟩
  obtain ⟨kept, checked⟩ := exists_forall₂ accepted
  obtain ⟨u, built, rfl⟩ := exists_ofFields checked distinct
  cases built.symm.trans h
  exact checked.imp fun _ _ => Field.normalizedTo

/-- Fields make a tuple if and only if each column accepts its value and no two columns have the same
name. The tuple has the same columns in the same order, with every value in the form of its column,
so that its own fields make it again. All other fields are refused for the first of them that is not
accepted or, if it is, has the name of an earlier one. -/
theorem well_formed_fields_normalized (fields : List Field) :
    ((∃ t, ofFields fields = .ok t) ↔
      (∀ f ∈ fields, f.Accepted) ∧ (fields.map Field.name).Nodup) ∧
    (∀ t, ofFields fields = .ok t →
      List.Forall₂ Field.NormalizedTo fields t.fields ∧ ofFields t.fields = .ok t) ∧
    ∀ e, ofFields fields = .error e ↔ FormationFault fields e :=
  ⟨exists_ofFields_iff, fun t built => ⟨forall₂_normalizedTo built, t.ofFields_fields⟩,
    fun _ => ofFields_eq_error_iff⟩

/-- A whole double and an integer change places between an integer and a double column. A refused
value is reported though its name occurred before, and a name that occurred before though a value is
refused after it. -/
theorem refused_value_before_repeated_name :
    (∃ t, ofFields [⟨⟨"count", .integer⟩, .float 42⟩, ⟨⟨"ratio", .float⟩, .integer 7⟩] = .ok t ∧
      t.values = [.integer 42, .float 7]) ∧
    ofFields [⟨⟨"ratio", .float⟩, .integer 7⟩, ⟨⟨"ratio", .float⟩, .string "x"⟩] =
      .error (.refused "ratio" .float (.string "x")) ∧
    ofFields [⟨⟨"ratio", .float⟩, .integer 7⟩, ⟨⟨"ratio", .float⟩, .float 1.5⟩,
        ⟨⟨"count", .integer⟩, .float 1.5⟩] =
      .error (.duplicateColumn "ratio") := by
  let count (v : Value) : Field := ⟨⟨"count", .integer⟩, v⟩
  let ratio (v : Value) : Field := ⟨⟨"ratio", .float⟩, v⟩
  have whole : (count (.float 42)).stored? = some (count (.integer 42)) := by decide +kernel
  have seven : (ratio (.integer 7)).stored? = some (ratio (.float 7)) := by decide +kernel
  have half : (ratio (.float 1.5)).stored? = some (ratio (.float 1.5)) := by decide +kernel
  refine ⟨?_, ?_, ?_⟩
  · obtain ⟨taken, normalized, -⟩ :=
      well_formed_fields_normalized [count (.float 42), ratio (.integer 7)]
    obtain ⟨t, built⟩ := taken.2 ⟨by simp [Field.Accepted, whole, seven], by decide⟩
    refine ⟨t, built, ?_⟩
    obtain ⟨forms, -⟩ := normalized t built
    have values : t.values.map some = [some (.integer 42), some (.float 7)] := by
      rw [values, List.map_map]
      refine (map_eq_map_iff_forall₂.2 (forms.imp fun _ _ form => form.kept)).symm.trans ?_
      decide +kernel
    exact (List.map_inj_right fun _ _ => Option.some.inj).1 values
  · refine ((well_formed_fields_normalized _).2.2 _).2 ?_
    exact @FormationFault.refused _ [ratio (.integer 7)] [] (ratio (.string "x")) rfl
      (by simp [Field.Accepted, seven]) (by simp) (by rintro ⟨g, ⟨⟩⟩)
  · refine ((well_formed_fields_normalized _).2.2 _).2 ?_
    exact @FormationFault.repeated _ [ratio (.integer 7)] [count (.float 1.5)] (ratio (.float 1.5)) rfl
      (by simp [Field.Accepted, seven]) (by simp) ⟨_, half⟩ (by decide)

end Tuple
end PullAlgebra
