import PullAlgebra.Decimal.Layout
import PullAlgebra.Integer64
import PullAlgebra.Text.Quoted

/-!
# PullAlgebra.Value

The four kinds of values and the column types that hold them. A value has a text, which is what a
reader of the data sees, and a description, which also names its kind and is what messages show.
-/

namespace PullAlgebra

inductive ColumnType where
  | boolean
  | string
  | integer
  | float
  deriving DecidableEq, Repr

def ColumnType.name : ColumnType → String
  | .boolean => "Boolean"
  | .string => "String"
  | .integer => "Integer"
  | .float => "Float"

inductive Value where
  | boolean (b : Bool)
  | string (s : String)
  | integer (i : Int64)
  | float (x : Float)
  deriving DecidableEq

namespace Value

/-- The type of the columns that store the value as it is. -/
def type : Value → ColumnType
  | .boolean _ => .boolean
  | .string _ => .string
  | .integer _ => .integer
  | .float _ => .float

def boolText (b : Bool) : String := if b then "true" else "false"

/-- The text of a value. A number is never written with an exponent. -/
def text : Value → String
  | .boolean b => boolText b
  | .string s => s
  | .integer i => String.ofList (Numeral.ofInt i.toInt)
  | .float x => Decimal.Layout.plain.ofFloat x

/-- The value in brackets after the name of its type, a string in quotes. -/
def describe (v : Value) : String :=
  let inside := match v with
    | .boolean b => boolText b
    | .string s => Text.quote s
    | .integer i => String.ofList (Numeral.ofInt i.toInt)
    | .float x => Decimal.Layout.described.ofFloat x
  v.type.name ++ "(" ++ inside ++ ")"

/-- Equality of values of the same type. Numbers with a fraction compare as numbers: the two zeros
are equal, and what is not a number equals nothing. -/
def equal : Value → Value → Bool
  | .boolean a, .boolean b => a == b
  | .string a, .string b => a == b
  | .integer a, .integer b => a == b
  | .float a, .float b => a == b
  | _, _ => false

end Value
end PullAlgebra
