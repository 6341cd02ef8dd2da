import RecordFilter.Scalar.Kind

/-!
The types that an exposed member of a record may have, the values of each, and their scalars.
-/

namespace RecordFilter

open Number

inductive MemberType where
  | string
  | i8
  | i16
  | i32
  | u8
  | u16
  | i64
  | u32
  | f32
  | f64
  | bool
  | option (inner : MemberType)
  deriving DecidableEq

namespace MemberType

/-- The plain types by their names. -/
def named? : String → Option MemberType
  | "String" => some string
  | "i8" => some i8
  | "i16" => some i16
  | "i32" => some i32
  | "u8" => some u8
  | "u16" => some u16
  | "i64" => some i64
  | "u32" => some u32
  | "f32" => some f32
  | "f64" => some f64
  | "bool" => some bool
  | _ => none

/-- Whole numbers have the narrower of the two kinds that holds all of their type. -/
def kind : MemberType → Kind
  | string => .text
  | i8 => .int32
  | i16 => .int32
  | i32 => .int32
  | u8 => .int32
  | u16 => .int32
  | i64 => .int64
  | u32 => .int64
  | f32 => .float32
  | f64 => .float64
  | bool => .bool
  | option inner => inner.kind

/-- The values of a type. -/
def Value : MemberType → Type
  | string => String
  | i8 => Int8
  | i16 => Int16
  | i32 => Int32
  | u8 => UInt8
  | u16 => UInt16
  | i64 => Int64
  | u32 => UInt32
  | f32 => Single
  | f64 => Double
  | bool => Bool
  | option inner => Option inner.Value

/-- The scalar of a value; an absent one is null. -/
def toScalar : (t : MemberType) → t.Value → Scalar
  | string, (s : String) => .text s
  | i8, (i : Int8) => .int32 (.ofInt i.toInt)
  | i16, (i : Int16) => .int32 (.ofInt i.toInt)
  | i32, (i : Int32) => .int32 i
  | u8, (n : UInt8) => .int32 (.ofNat n.toNat)
  | u16, (n : UInt16) => .int32 (.ofNat n.toNat)
  | i64, (i : Int64) => .int64 i
  | u32, (n : UInt32) => .int64 (.ofNat n.toNat)
  | f32, (x : Single) => .float32 x
  | f64, (x : Double) => .float64 x
  | bool, (b : Bool) => .bool b
  | option _, none => .null
  | option inner, some v => toScalar inner v

end MemberType

end RecordFilter
