import RecordFilter.Scalar.Kind
import RecordFilter.Json.Number
import RecordFilter.Json.Decode

/-!
Scalars and kinds in JSON: a variant named for the kind of value, numbers as JSON numbers.
-/

namespace RecordFilter.Scalar

open Number

def toJson : Scalar → Json
  | null => .string "Null"
  | text s => .tagged "String" (.string s)
  | int32 i => .tagged "I32" (.ofInt i.toInt)
  | int64 i => .tagged "I64" (.ofInt i.toInt)
  | float32 x => .tagged "F32" (Json.ofSingle x)
  | float64 x => .tagged "F64" (Json.ofDouble x)
  | bool b => .tagged "Bool" (.bool b)

def wholeNumber? : Json → Option Int
  | .number n => Json.whole? n
  | _ => none

def binaryNumber? (f : Format) : Json → Option (Binary f)
  | .number n => Json.binary? f n
  | _ => none

def ofVariant? : String → Json → Option Scalar
  | "Null", .null => some null
  | "String", j => j.text?.map text
  | "I32", j => ((wholeNumber? j).bind int32?).map int32
  | "I64", j => ((wholeNumber? j).bind int64?).map int64
  | "F32", j => (binaryNumber? .single j).map float32
  | "F64", j => (binaryNumber? .double j).map float64
  | "Bool", j => j.bool?.map bool
  | _, _ => none

def ofJson? (room : Nat) (j : Json) : Option Scalar := do
  match ← Json.variant? room j with
  | ("Null", none) => some null
  | (_, none) => none
  | (name, some payload) => ofVariant? name payload

end RecordFilter.Scalar
