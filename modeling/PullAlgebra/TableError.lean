import PullAlgebra.Value

/-!
# PullAlgebra.TableError

What can go wrong with columns, rows and tables, and the message for each cause.
-/

namespace PullAlgebra

inductive TableError where
  /-- A projection names a column that its input lacks. -/
  | unknownProjected (name : String)
  /-- A row names a column that the relation lacks. -/
  | unknownColumn (name : String)
  /-- A tuple has other columns than the schema that it is to follow. -/
  | columnsDiffer (found expected : List String)
  /-- A column name would stand twice in one schema or tuple. -/
  | duplicateColumn (name : String)
  /-- A column does not accept a value. -/
  | refused (column : String) (type : ColumnType) (value : Value)
  /-- A text is not the text of a value of the type. -/
  | unreadable (type : ColumnType) (text : String)
  deriving DecidableEq

namespace TableError

def message : TableError → String
  | unknownProjected name => s!"schema mismatch: cannot project unknown column '{name}'"
  | unknownColumn name => s!"schema mismatch: relation has no column '{name}'"
  | columnsDiffer found expected =>
    let found := ", ".intercalate found
    let expected := ", ".intercalate expected
    s!"schema mismatch: tuple columns [{found}] do not match [{expected}]"
  | duplicateColumn name => s!"duplicate column: {name}"
  | refused column type value =>
    s!"type mismatch: column '{column}' of type {type.name} does not accept {value.describe}"
  | unreadable type text => s!"cannot parse {Text.quote text} as {type.name}"

end TableError
end PullAlgebra
