import Mathlib.Data.List.Count
import PullAlgebra.Proofs.Relation.Texts
import PullAlgebra.Proofs.Tuple.Names

/-!
# PullAlgebra.Proofs.Relation.Acceptance

Which rows of texts come into a relation, and what is reported of the others. Each pair of a row
stands for a field: a column of the relation, and the value of the text under it. A row is taken if
its fields are those of the relation's columns, in whatever order.

* `ColumnType.stores_of_read?`: what is read is in the form of its column already.
* `Denotes`: the field that a pair stands for; `pushTexts_eq_ok_iff` what a row comes to.
* `Fault`: what is wrong with a row, in the order in which it is looked for.
* `complete_or_fault`: every row is complete or has a fault.
* `texts_taken_iff_complete`: the two answers to a row.
-/

namespace PullAlgebra

namespace ColumnType

theorem stores_of_read? {type : ColumnType} {text : String} {v : Value}
    (h : type.read? text = some v) : type.Stores v := by
  cases type with
  | boolean => cases h; exact ⟨rfl, nofun⟩
  | string => cases h; exact ⟨rfl, nofun⟩
  | integer =>
    obtain ⟨i, -, rfl⟩ := Option.map_eq_some_iff.1 h
    exact ⟨rfl, nofun⟩
  | float =>
    obtain ⟨x, finite, rfl⟩ := Option.map_eq_some_iff.1 h
    refine ⟨rfl, ?_⟩
    rintro y ⟨⟩
    exact (Option.filter_eq_some_iff.1 finite).2

theorem parse_eq_ok_iff {type : ColumnType} {text : String} {v : Value} :
    type.parse text = .ok v ↔ type.read? text = some v := by
  unfold parse
  cases type.read? text <;> simp

theorem parse_error {type : ColumnType} {text : String} (h : ∀ v, type.parse text ≠ .ok v) :
    type.parse text = .error (.unreadable type text) := by
  unfold parse at h ⊢
  cases read : type.read? text with
  | none => rfl
  | some v => exact absurd (by rw [read]) (h v)

end ColumnType

namespace Tuple

variable {t : Tuple} {s : Schema}

theorem alignTo_of_absent {c : Column} (known : c ∈ s.columns)
    (absent : c.name ∉ t.fields.map Field.name) :
    t.alignTo s = .error (.columnsDiffer (t.fields.map Field.name) s.names) := by
  rw [← names_schema]
  refine alignTo_of_refused fun u aligned => ?_
  obtain ⟨columns, same⟩ := alignTo_eq_ok_iff.1 aligned
  rw [← columns] at known
  obtain ⟨f, hf, rfl⟩ := List.mem_map.1 known
  exact absent (List.mem_map_of_mem (same.mem_iff.1 hf))

end Tuple

namespace Relation

variable {r : Relation} {row : List (String × String)}

/-! ## Pairs and their fields -/

/-- The field that a pair stands for: a column of the relation, and the value of the text under
it. -/
def Denotes (r : Relation) (pair : String × String) (f : Field) : Prop :=
  f.column ∈ r.schema.columns ∧ f.name = pair.1 ∧ f.column.type.parse pair.2 = .ok f.value

theorem readField_eq_ok_iff {pair : String × String} {f : Field} :
    r.readField pair.1 pair.2 = .ok f ↔ r.Denotes pair f := by
  unfold readField Denotes
  constructor
  · intro read
    split at read
    · cases read
    · rename_i c found
      obtain ⟨v, parsed, rfl⟩ := map_eq_ok read
      rw [Schema.column?_eq_find?] at found
      have named : c.name = pair.1 := by simpa using List.find?_some found
      exact ⟨List.mem_of_find?_eq_some found, named, parsed⟩
  · rintro ⟨known, named, parsed⟩
    have found : r.schema.column? pair.1 = some f.column := by
      rw [← named]
      exact Schema.column?_of_mem known
    simp only [found, parsed]
    rfl

theorem Denotes.stored {pair : String × String} {f : Field} (h : r.Denotes pair f) : f.Stored :=
  ColumnType.stores_of_read? (ColumnType.parse_eq_ok_iff.1 h.2.2)

/-- Columns of a relation with the same name are the same. -/
theorem column_eq_of_name {c d : Column} (hc : c ∈ r.schema.columns) (hd : d ∈ r.schema.columns)
    (same : c.name = d.name) : c = d :=
  List.inj_on_of_nodup_map r.schema.distinct hc hd same

section Row

variable {fields : List Field} (denotes : List.Forall₂ r.Denotes row fields)
include denotes

theorem names_of_denotes : fields.map Field.name = row.map Prod.fst :=
  map_eq_map_iff_forall₂.2 (denotes.flip.imp fun _ _ h => h.2.1)

theorem stored_of_denotes : ∀ f ∈ fields, f.Stored := by
  intro f hf
  obtain ⟨pair, -, h⟩ := exists_of_forall₂_left denotes.flip hf
  exact Denotes.stored h

theorem readRow_of_denotes : r.readRow row = Tuple.ofFields fields :=
  readRow_of_read (denotes.imp fun _ _ => readField_eq_ok_iff.2)

/-- Texts for distinct columns make a tuple, which then still has to fit the relation. -/
theorem pushTexts_of_distinct (distinct : (fields.map Field.name).Nodup) :
    r.pushTexts row = r.push ⟨fields, distinct, stored_of_denotes denotes⟩ := by
  refine pushTexts_of_readRow ?_
  rw [readRow_of_denotes denotes, Tuple.ofFields_of_stored distinct (stored_of_denotes denotes)]

end Row

/-- A row that is taken adds the tuple of its fields, in the order of the columns. -/
theorem pushTexts_eq_ok_iff {grown : Relation} :
    r.pushTexts row = ⟨.ok (), grown⟩ ↔
      grown.schema = r.schema ∧ ∃ t, grown.tuples = r.tuples.push t ∧ t.columns = r.schema.columns ∧
        ∃ fields, List.Forall₂ r.Denotes row fields ∧ t.fields.Perm fields := by
  constructor
  · intro taken
    cases read : r.readRow row with
    | error e => cases taken.symm.trans (pushTexts_of_unread read)
    | ok t =>
      have pushed := (pushTexts_of_readRow read).symm.trans taken
      obtain ⟨fields, read, built⟩ := bind_eq_ok read
      have denotes : List.Forall₂ r.Denotes row fields :=
        (forall₂_of_mapM_eq_ok read).imp fun _ _ => readField_eq_ok_iff.1
      rcases r.push_cases t with ⟨u, _, aligned, step, schema, tuples⟩ | ⟨_, -, step⟩
      · cases step.symm.trans pushed
        obtain ⟨columns, same⟩ := Tuple.alignTo_eq_ok_iff.1 aligned
        rw [Tuple.fields_of_ofFields (stored_of_denotes denotes) built] at same
        exact ⟨schema, u, tuples, columns, fields, denotes, same⟩
      · cases step.symm.trans pushed
  · rintro ⟨schema, t, tuples, columns, fields, denotes, same⟩
    have distinct : (fields.map Field.name).Nodup := (same.map Field.name).nodup_iff.1 t.distinct
    have aligned := Tuple.alignTo_eq_ok_iff.2 (And.intro columns
      (show t.fields.Perm (Tuple.mk fields distinct (stored_of_denotes denotes)).fields from same))
    obtain ⟨grown', step, schema', tuples'⟩ := push_of_aligned aligned
    rw [pushTexts_of_distinct denotes distinct, step,
      ext_tuples (schema'.trans schema.symm) (tuples'.trans tuples.symm)]

/-! ## Complete rows and the others -/

/-- Each column is named once, and each pair stands for a field. -/
structure Complete (r : Relation) (row : List (String × String)) : Prop where
  once : ∀ c ∈ r.schema.columns, (row.map Prod.fst).count c.name = 1
  denotes : ∀ pair ∈ row, ∃ f, r.Denotes pair f

theorem complete_iff : r.Complete row ↔
    (∀ c ∈ r.schema.columns, (row.map Prod.fst).count c.name = 1) ∧
      (∀ pair ∈ row, pair.1 ∈ r.schema.names) ∧
      ∀ pair ∈ row, ∀ c ∈ r.schema.columns, c.name = pair.1 →
        ∃ v, c.type.parse pair.2 = .ok v := by
  constructor
  · rintro ⟨once, denotes⟩
    refine ⟨once, ?_, ?_⟩
    · intro pair hp
      obtain ⟨f, known, named, -⟩ := denotes pair hp
      exact named ▸ List.mem_map_of_mem known
    · intro pair hp c hc named
      obtain ⟨f, known, named', parsed⟩ := denotes pair hp
      rw [column_eq_of_name hc known (named.trans named'.symm)]
      exact ⟨f.value, parsed⟩
  · rintro ⟨once, known, parsed⟩
    refine ⟨once, fun pair hp => ?_⟩
    obtain ⟨c, hc, named⟩ := List.mem_map.1 (known pair hp)
    obtain ⟨v, parsed⟩ := parsed pair hp c hc named
    exact ⟨⟨c, v⟩, hc, named, parsed⟩

/-- What is wrong with a row. Pair by pair its name is looked for and then its text is read; of a row
without such a pair the names are compared with each other, and then with those of the columns. -/
inductive Fault (r : Relation) (row : List (String × String)) : TableError → Prop
  | unknownColumn {before after : List (String × String)} {name text : String}
      (split : row = before ++ (name, text) :: after)
      (denotes : ∀ pair ∈ before, ∃ f, r.Denotes pair f)
      (unknown : name ∉ r.schema.names) : Fault r row (.unknownColumn name)
  | unreadable {before after : List (String × String)} {c : Column} {text : String}
      (split : row = before ++ (c.name, text) :: after)
      (denotes : ∀ pair ∈ before, ∃ f, r.Denotes pair f)
      (known : c ∈ r.schema.columns) (unread : ∀ v, c.type.parse text ≠ .ok v) :
      Fault r row (.unreadable c.type text)
  | repeated {before after : List String} {name : String}
      (denotes : ∀ pair ∈ row, ∃ f, r.Denotes pair f)
      (split : row.map Prod.fst = before ++ name :: after)
      (fresh : before.Nodup) (again : name ∈ before) : Fault r row (.duplicateColumn name)
  | missing {c : Column} (denotes : ∀ pair ∈ row, ∃ f, r.Denotes pair f)
      (distinct : (row.map Prod.fst).Nodup)
      (known : c ∈ r.schema.columns) (absent : c.name ∉ row.map Prod.fst) :
      Fault r row (.columnsDiffer (row.map Prod.fst) r.schema.names)

theorem exists_pushTexts_of_complete (h : r.Complete row) :
    ∃ grown, r.pushTexts row = ⟨.ok (), grown⟩ := by
  obtain ⟨fields, denotes⟩ := exists_forall₂ h.denotes
  have names := names_of_denotes denotes
  have known : ∀ f ∈ fields, f.column ∈ r.schema.columns := by
    intro f hf
    obtain ⟨_, -, h⟩ := exists_of_forall₂_left denotes.flip hf
    exact h.1
  have distinct : (fields.map Field.name).Nodup := by
    rw [names, List.nodup_iff_count_le_one]
    intro name
    by_cases hn : name ∈ row.map Prod.fst
    · rw [← names] at hn
      obtain ⟨f, hf, rfl⟩ := List.mem_map.1 hn
      exact (h.once f.column (known f hf)).le
    · rw [List.count_eq_zero_of_not_mem hn]
      exact Nat.zero_le 1
  let t : Tuple := ⟨fields, distinct, stored_of_denotes denotes⟩
  have same : t.columns.Perm r.schema.columns := by
    rw [List.perm_ext_iff_of_nodup t.nodup_columns r.schema.distinct.of_map]
    intro c
    constructor
    · intro hc
      obtain ⟨f, hf, rfl⟩ := List.mem_map.1 hc
      exact known f hf
    · intro hc
      have named : c.name ∈ fields.map Field.name := by
        rw [names, ← List.count_pos_iff, h.once c hc]
        exact Nat.one_pos
      obtain ⟨f, hf, named⟩ := List.mem_map.1 named
      rw [← column_eq_of_name (known f hf) hc named]
      exact List.mem_map_of_mem hf
  obtain ⟨u, aligned⟩ := Tuple.exists_alignTo_of_perm same
  obtain ⟨grown, step, -⟩ := push_of_aligned aligned
  exact ⟨grown, (pushTexts_of_distinct denotes distinct).trans step⟩

theorem complete_of_pushTexts {grown : Relation} (h : r.pushTexts row = ⟨.ok (), grown⟩) :
    r.Complete row := by
  obtain ⟨-, t, -, columns, fields, denotes, same⟩ := pushTexts_eq_ok_iff.1 h
  constructor
  case once =>
    intro c hc
    have names : t.fields.map Field.name = r.schema.names := Tuple.names_eq_of_columns_eq columns
    rw [← names_of_denotes denotes, ← (same.map Field.name).count_eq, names]
    exact List.count_eq_one_of_mem r.schema.distinct (List.mem_map_of_mem hc)
  case denotes =>
    intro pair hp
    obtain ⟨f, -, h⟩ := exists_of_forall₂_left denotes hp
    exact ⟨f, h⟩

theorem readField_of_denotes {pair : String × String} (h : ∃ f, r.Denotes pair f) :
    ∃ f, r.readField pair.1 pair.2 = .ok f := by
  obtain ⟨f, h⟩ := h
  exact ⟨f, readField_eq_ok_iff.2 h⟩

theorem readRow_of_readField_error {before after : List (String × String)}
    {pair : String × String} {e : TableError} (denotes : ∀ pair ∈ before, ∃ f, r.Denotes pair f)
    (failed : r.readField pair.1 pair.2 = .error e) :
    r.readRow (before ++ pair :: after) = .error e := by
  rw [readRow_eq, mapM_eq_error (fun pair hp => readField_of_denotes (denotes pair hp)) failed]
  rfl

/-- A row with a fault is refused because of it, and the relation is left alone. -/
theorem pushTexts_of_fault {e : TableError} (h : r.Fault row e) :
    r.pushTexts row = ⟨.error e, r⟩ := by
  cases h with
  | @unknownColumn before after name text split denotes unknown =>
    rw [split]
    refine pushTexts_of_unread (readRow_of_readField_error denotes ?_)
    have absent : r.schema.column? name = none := by
      rw [Schema.column?_eq_find?, List.find?_eq_none]
      intro c hc named
      exact unknown (List.mem_map.2 ⟨c, hc, eq_of_beq named⟩)
    simp only [readField, absent]
  | @unreadable before after c text split denotes known unread =>
    rw [split]
    refine pushTexts_of_unread (readRow_of_readField_error denotes ?_)
    simp only [readField, Schema.column?_of_mem known, ColumnType.parse_error unread]
    rfl
  | @repeated before after name denotes split fresh again =>
    obtain ⟨fields, denotes⟩ := exists_forall₂ denotes
    rw [← names_of_denotes denotes] at split
    obtain ⟨first, rest, rfl, rfl, others⟩ := List.map_eq_append_iff.1 split
    obtain ⟨f, last, rfl, rfl, rfl⟩ := List.map_eq_cons_iff.1 others
    refine pushTexts_of_unread ?_
    rw [readRow_of_denotes denotes,
      Tuple.ofFields_of_repeated (stored_of_denotes denotes) fresh again]
  | @missing c denotes distinct known absent =>
    obtain ⟨fields, denotes⟩ := exists_forall₂ denotes
    rw [← names_of_denotes denotes] at distinct absent ⊢
    rw [pushTexts_of_distinct denotes distinct]
    exact push_of_refused (Tuple.alignTo_of_absent known absent)

theorem complete_or_fault (r : Relation) (row : List (String × String)) :
    r.Complete row ∨ ∃ e, r.Fault row e := by
  rcases forall_or_first (fun pair => ∃ f, r.Denotes pair f) row with
    denotes | ⟨before, ⟨name, text⟩, after, split, denotes, failed⟩
  · rcases nodup_or_repeated Prod.fst row with
      distinct | ⟨before, pair, after, split, fresh, again⟩
    · by_cases named : ∀ c ∈ r.schema.columns, c.name ∈ row.map Prod.fst
      · exact .inl ⟨fun c hc => List.count_eq_one_of_mem distinct (named c hc), denotes⟩
      · push Not at named
        obtain ⟨c, known, absent⟩ := named
        exact .inr ⟨_, .missing denotes distinct known absent⟩
    · have names : row.map Prod.fst = before.map Prod.fst ++ pair.1 :: after.map Prod.fst := by
        rw [split, List.map_append, List.map_cons]
      exact .inr ⟨_, .repeated denotes names fresh again⟩
  · by_cases known : name ∈ r.schema.names
    · obtain ⟨c, hc, rfl⟩ := List.mem_map.1 known
      refine .inr ⟨_, .unreadable split denotes hc ?_⟩
      intro v parsed
      exact failed ⟨⟨c, v⟩, hc, rfl, parsed⟩
    · exact .inr ⟨_, .unknownColumn split denotes known⟩

theorem result_pushTexts_eq_error_iff {e : TableError} :
    (r.pushTexts row).result = .error e ↔ r.Fault row e := by
  constructor
  · intro refused
    rcases complete_or_fault r row with complete | ⟨e', fault⟩
    · obtain ⟨grown, taken⟩ := exists_pushTexts_of_complete complete
      rw [taken] at refused
      cases refused
    · rw [pushTexts_of_fault fault] at refused
      cases refused
      exact fault
  · intro fault
    rw [pushTexts_of_fault fault]

theorem pushTexts_of_perm {other : List (String × String)} {grown : Relation}
    (h : r.pushTexts row = ⟨.ok (), grown⟩) (same : other.Perm row) :
    r.pushTexts other = ⟨.ok (), grown⟩ := by
  obtain ⟨schema, t, tuples, columns, fields, denotes, perm⟩ := pushTexts_eq_ok_iff.1 h
  obtain ⟨fields', denotes', perm'⟩ := List.perm_comp_forall₂ same denotes
  exact pushTexts_eq_ok_iff.2
    ⟨schema, t, tuples, columns, fields', denotes', perm.trans perm'.symm⟩

/-- A row of texts is taken if and only if each column is named once, no other name occurs, and each
text is read under its column. It adds one tuple with what the texts are read as, the same for the
pairs in any order. Every other row is refused for its fault: the first pair with an unknown name or
an unreadable text, or else the first name that occurred before, or else the columns that have no
pair. No value is refused by its column, as what a column reads it also keeps. -/
theorem texts_taken_iff_complete (r : Relation) (row : List (String × String)) :
    ((∃ grown, r.pushTexts row = ⟨.ok (), grown⟩) ↔
      (∀ c ∈ r.schema.columns, (row.map Prod.fst).count c.name = 1) ∧
        (∀ pair ∈ row, pair.1 ∈ r.schema.names) ∧
        ∀ pair ∈ row, ∀ c ∈ r.schema.columns, c.name = pair.1 →
          ∃ v, c.type.parse pair.2 = .ok v) ∧
    (∀ grown, r.pushTexts row = ⟨.ok (), grown⟩ → grown.schema = r.schema ∧
      (∃ t, grown.tuples = r.tuples.push t ∧ t.columns = r.schema.columns ∧
        ∀ pair ∈ row, ∀ c ∈ r.schema.columns, c.name = pair.1 →
          ∃ v, c.type.parse pair.2 = .ok v ∧ t.get? c.name = some v) ∧
      ∀ other : List (String × String), other.Perm row → r.pushTexts other = ⟨.ok (), grown⟩) ∧
    (∀ e, (r.pushTexts row).result = .error e ↔ r.Fault row e) ∧
    (∀ column type value, (r.pushTexts row).result ≠ .error (.refused column type value)) ∧
    ∀ (type : ColumnType) (text : String) (v : Value), type.parse text = .ok v →
      type.stored? v = some v := by
  refine ⟨?_, ?_, fun _ => result_pushTexts_eq_error_iff, ?_, ?_⟩
  · rw [← complete_iff]
    refine ⟨?_, exists_pushTexts_of_complete⟩
    rintro ⟨grown, taken⟩
    exact complete_of_pushTexts taken
  · intro grown taken
    obtain ⟨schema, t, tuples, columns, fields, denotes, same⟩ := pushTexts_eq_ok_iff.1 taken
    refine ⟨schema, ⟨t, tuples, columns, ?_⟩, fun other perm => pushTexts_of_perm taken perm⟩
    intro pair hp c hc named
    obtain ⟨f, hf, known, named', parsed⟩ := exists_of_forall₂_left denotes hp
    obtain rfl : c = f.column := column_eq_of_name hc known (named.trans named'.symm)
    exact ⟨f.value, parsed, Tuple.get?_of_mem (same.mem_iff.2 hf)⟩
  · intro column type value refused
    cases result_pushTexts_eq_error_iff.1 refused
  · intro type text v parsed
    exact ColumnType.stored?_of_stores
      (ColumnType.stores_of_read? (ColumnType.parse_eq_ok_iff.1 parsed))

/-- Columns for a boolean and an integer: a row in the other order is taken, and there is a row for
each of the four faults. -/
theorem swapped_row_taken : ∃ r : Relation,
    r.schema.columns = [⟨"flag", .boolean⟩, ⟨"count", .integer⟩] ∧
      (∃ grown t, r.pushTexts [("count", " 7 "), ("flag", "yes")] = ⟨.ok (), grown⟩ ∧
        grown.tuples = r.tuples.push t ∧ t.get? "flag" = some (.boolean false) ∧
          t.get? "count" = some (.integer 7)) ∧
      (r.pushTexts [("count", "four"), ("nope", "1")]).result =
        .error (.unreadable .integer "four") ∧
      (r.pushTexts [("nope", "1"), ("count", "four")]).result = .error (.unknownColumn "nope") ∧
      (r.pushTexts [("flag", "true"), ("flag", "true")]).result = .error (.duplicateColumn "flag") ∧
      (r.pushTexts [("flag", "true")]).result =
        .error (.columnsDiffer ["flag"] ["flag", "count"]) := by
  obtain ⟨schema, columns⟩ :
      ∃ schema : Schema, schema.columns = [⟨"flag", .boolean⟩, ⟨"count", .integer⟩] :=
    ⟨.ofDistinct _ (by decide), Schema.columns_ofDistinct _⟩
  have names : schema.names = ["flag", "count"] := by rw [Schema.names, columns]; rfl
  let r := empty schema
  have flag : ⟨"flag", .boolean⟩ ∈ r.schema.columns := by simp [r, empty, columns]
  have count : ⟨"count", .integer⟩ ∈ r.schema.columns := by simp [r, empty, columns]
  have flagged : r.Denotes ("flag", "true") ⟨⟨"flag", .boolean⟩, .boolean true⟩ := ⟨flag, rfl, rfl⟩
  have refused {row : List (String × String)} {e : TableError} (fault : r.Fault row e) :
      (r.pushTexts row).result = .error e :=
    ((r.texts_taken_iff_complete row).2.2.1 e).2 fault
  refine ⟨r, columns, ?_, refused ?_, refused ?_, refused ?_, refused ?_⟩
  case refine_1 =>
    obtain ⟨taken, grows, -⟩ := r.texts_taken_iff_complete [("count", " 7 "), ("flag", "yes")]
    obtain ⟨grown, pushed⟩ := taken.2 (by simp [r, empty, columns, names]; exact ⟨⟨_, rfl⟩, _, rfl⟩)
    obtain ⟨-, ⟨t, tuples, -, values⟩, -⟩ := grows grown pushed
    obtain ⟨v, read, found⟩ := values ("count", " 7 ") (by simp) _ count rfl
    obtain ⟨w, read', found'⟩ := values ("flag", "yes") (by simp) _ flag rfl
    cases read
    cases read'
    exact ⟨grown, t, pushed, tuples, found', found⟩
  case refine_2 =>
    exact @Fault.unreadable _ _ [] _ _ _ rfl (by simp) count (by rintro v ⟨⟩)
  case refine_3 =>
    exact @Fault.unknownColumn _ _ [] _ _ _ rfl (by simp) (by simp [r, empty, names])
  case refine_4 =>
    exact @Fault.repeated _ _ ["flag"] [] _ (by simpa using ⟨_, flagged⟩) rfl (by simp) (by simp)
  case refine_5 =>
    rw [← show r.schema.names = _ from names]
    exact .missing (by simpa using ⟨_, flagged⟩) (by simp) count (by simp)

end Relation
end PullAlgebra
