import RecordFilter.Number.Literal
import RecordFilter.Number.Layout

/-!
The values that a field of a record may have, their text, and their value as a number.
-/

namespace RecordFilter

open Number

inductive Scalar where
  | null
  | text (s : String)
  | int32 (i : Int32)
  | int64 (i : Int64)
  | float32 (x : Single)
  | float64 (x : Double)
  | bool (b : Bool)
  deriving DecidableEq

namespace Scalar

def isNull : Scalar → Bool
  | null => true
  | _ => false

def isNumeric : Scalar → Bool
  | int32 _ => true
  | int64 _ => true
  | float32 _ => true
  | float64 _ => true
  | _ => false

def displayBool (b : Bool) : List Char :=
  if b then ['t', 'r', 'u', 'e'] else ['f', 'a', 'l', 's', 'e']

def displayChars : Scalar → List Char
  | null => ['n', 'u', 'l', 'l']
  | text s => s.toList
  | int32 i => writeInt i.toInt
  | int64 i => writeInt i.toInt
  | float32 x => x.displayChars
  | float64 x => x.displayChars
  | bool b => displayBool b

def display (v : Scalar) : String :=
  String.ofList v.displayChars

/-- The text that is searched and compared; null has none. -/
def textChars? : Scalar → Option (List Char)
  | null => none
  | v => some v.displayChars

/-- The value as a number. Text is read as one; null and truth values have none. -/
def toDouble? : Scalar → Option Double
  | int32 i => some (.ofInt i.toInt)
  | int64 i => some (.ofInt i.toInt)
  | float32 x => some x.convert
  | float64 x => some x
  | text s => readNumber? s.toList
  | null => none
  | bool _ => none

end Scalar

end RecordFilter
