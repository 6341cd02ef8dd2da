import RecordFilter.Text.Quoted
import RecordFilter.Scalar.Basic

/-!
The declared kind of a field, and literals converted to it.
-/

namespace RecordFilter

open Number

inductive Kind where
  | text
  | int32
  | int64
  | float32
  | float64
  | bool
  deriving DecidableEq

/-- A literal that has no value of the kind. -/
structure ConversionError where
  literal : String
  kind : Kind
  deriving DecidableEq

namespace Kind

def name : Kind → String
  | text => "Text"
  | int32 => "Int32"
  | int64 => "Int64"
  | float32 => "Float32"
  | float64 => "Float64"
  | bool => "Bool"

/-- The name of the type whose values are of the kind. -/
def typeName : Kind → String
  | text => "String"
  | int32 => "i32"
  | int64 => "i64"
  | float32 => "f32"
  | float64 => "f64"
  | bool => "bool"

def isNumeric : Kind → Bool
  | text => false
  | bool => false
  | _ => true

def readBool? (s : List Char) : Option Bool :=
  if Text.sameLetters s (Scalar.displayBool true) then some true
  else if Text.sameLetters s (Scalar.displayBool false) then some false
  else none

/-- The value that a literal stands for. Text is taken as it is; around every other literal blanks
do not count. -/
def convert? (kind : Kind) (literal : String) : Option Scalar :=
  let body := Text.trim literal.toList
  match kind with
  | text => some (.text literal)
  | int32 => (readInt32? body).map .int32
  | int64 => (readInt64? body).map .int64
  | float32 => (readBinary? .single body).map .float32
  | float64 => (readBinary? .double body).map .float64
  | bool => (readBool? body).map .bool

def convert (kind : Kind) (literal : String) : Except ConversionError Scalar :=
  match kind.convert? literal with
  | some v => .ok v
  | none => .error ⟨literal, kind⟩

end Kind

def ConversionError.message (e : ConversionError) : String :=
  "cannot convert " ++ Text.quoted e.literal ++ " to " ++ e.kind.name

end RecordFilter
