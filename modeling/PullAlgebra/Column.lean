import PullAlgebra.Binary64.Truncation
import PullAlgebra.TableError
import PullAlgebra.Text.Blank

/-!
# PullAlgebra.Column

Columns, the values that they accept, and the texts from which they read values. A column keeps
each value in one form: whole numbers as integers in an integer column, every number as a finite
double in a float column.

* `ColumnType.stored?`: the form in which a value is kept, if the type accepts it.
* `ColumnType.read?`: the value that a text stands for.
* `ColumnType.Stores`: which values are in the form of the type.
* `stores_of_stored?`, `stored?_of_stores`: they are the values that are kept, and they are kept as
  they are.
-/

namespace PullAlgebra
namespace ColumnType

/-- The double that a text with digits on both sides of a point denotes, if it denotes one and this
is finite. -/
def plainDecimal? (s : String) : Option Float :=
  if Decimal.isPlain s.toList then
    ((Decimal.read? s.toList).map Decimal.toFloat).filter Float.isFinite
  else none

/-- The form in which columns of the type keep a value; none for a value that they refuse. -/
def stored? : ColumnType → Value → Option Value
  | .boolean, .boolean b => some (.boolean b)
  | .string, .string s => some (.string s)
  | .integer, .integer i => some (.integer i)
  | .integer, .float x => (Binary64.whole? x).map .integer
  | .float, .integer i => some (.float (Binary64.ofInt i.toInt))
  | .float, .float x => if x.isFinite then some (.float x) else none
  | .float, .string s => (plainDecimal? s).map .float
  | _, _ => none

/-- The value that a text stands for. All texts but `true` are false, a string is taken as it is,
and a number may stand between white space. -/
def read? : ColumnType → String → Option Value
  | .boolean, s => some (.boolean (s == "true"))
  | .string, s => some (.string s)
  | .integer, s =>
    ((Numeral.readInt? (Text.trim s.toList)).bind Integer64.ofInt?).map .integer
  | .float, s =>
    (((Decimal.read? (Text.trim s.toList)).map Decimal.toFloat).filter Float.isFinite).map .float

def parse (type : ColumnType) (s : String) : Except TableError Value :=
  match type.read? s with
  | some v => .ok v
  | none => .error (.unreadable type s)

/-- The values in the form of the type: they are of the type itself, and finite. -/
def Stores (type : ColumnType) (v : Value) : Prop :=
  v.type = type ∧ ∀ x, v = .float x → x.isFinite

theorem natAbs_toInt_lt (i : Int64) : i.toInt.natAbs < 0x10000000000000000 := by
  have := Integer64.inRange_toInt i
  unfold Integer64.InRange at this
  omega

theorem stores_of_stored? {type : ColumnType} {v w : Value} (h : type.stored? v = some w) :
    type.Stores w := by
  unfold stored? at h
  split at h
  · cases h; exact ⟨rfl, fun _ h => by cases h⟩
  · cases h; exact ⟨rfl, fun _ h => by cases h⟩
  · cases h; exact ⟨rfl, fun _ h => by cases h⟩
  · obtain ⟨i, -, rfl⟩ := Option.map_eq_some_iff.1 h
    exact ⟨rfl, fun _ h => by cases h⟩
  · cases h
    exact ⟨rfl, fun _ h => by cases h; exact Binary64.isFinite_ofInt (natAbs_toInt_lt _)⟩
  · split at h
    · cases h; exact ⟨rfl, fun _ h => by cases h; assumption⟩
    · cases h
  · obtain ⟨x, hx, rfl⟩ := Option.map_eq_some_iff.1 h
    refine ⟨rfl, fun _ h => ?_⟩
    cases h
    unfold plainDecimal? at hx
    split at hx
    · exact (Option.filter_eq_some_iff.1 hx).2
    · cases hx
  · cases h

theorem stored?_of_stores {type : ColumnType} {v : Value} (h : type.Stores v) :
    type.stored? v = some v := by
  obtain ⟨rfl, hf⟩ := h
  cases v with
  | float x => simp [Value.type, stored?, hf x rfl]
  | _ => rfl

end ColumnType

/-- A name and the type of the values under it. -/
structure Column where
  name : String
  type : ColumnType
  deriving DecidableEq, Repr

namespace Column

def renamed (c : Column) (name : String) : Column := { c with name }

/-- The column in full, as messages show it. -/
def describe (c : Column) : String :=
  s!"Column \x7b name: {Text.quote c.name}, column_type: {c.type.name} \x7d"

end Column
end PullAlgebra
