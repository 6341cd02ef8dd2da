import RecordFilter.Record.Basic
import RecordFilter.Json.Number
import RecordFilter.Json.Printer

/-!
JSON documents as records. A dotted name leads into nested objects, unless the whole name is a
member of the outermost one.
-/

namespace RecordFilter

open Number

/-- A JSON value: numbers are whole or binary, and the members of an object are in the order of
their names, one for each. -/
inductive Document where
  | null
  | bool (b : Bool)
  | whole (n : Int)
  | double (x : Double)
  | text (s : String)
  | array (items : List Document)
  | object (members : List (String × Document))

namespace Document

def ofNumeral? (n : Numeral) : Option Document :=
  match Json.whole? n with
  | some i => some (whole i)
  | none => (Json.double? n).map double

mutual

/-- Missing where the document holds a number past the doubles, or text that is none. -/
def ofJson? : Json → Option Document
  | .null => some null
  | .bool b => some (bool b)
  | .number n => ofNumeral? n
  | .string s => some (text s)
  | .garbled => none
  | .array items => (ofItems? items).map array
  | .object members => (ofMembers? members).map fun found => object (Keyed.ofList found)

def ofItems? : List Json → Option (List Document)
  | [] => some []
  | item :: items => do
      let first ← ofJson? item
      return first :: (← ofItems? items)

def ofMembers? : List (String × Json) → Option (List (String × Document))
  | [] => some []
  | (name, value) :: members => do
      let first ← ofJson? value
      return (name, first) :: (← ofMembers? members)

end

mutual

def toJson : Document → Json
  | null => .null
  | bool b => .bool b
  | whole n => .ofInt n
  | double x => Json.ofDouble x
  | text s => .string s
  | array items => .array (itemsToJson items)
  | object members => .object (membersToJson members)

def itemsToJson : List Document → List Json
  | [] => []
  | item :: items => toJson item :: itemsToJson items

def membersToJson : List (String × Document) → List (String × Json)
  | [] => []
  | (name, value) :: members => (name, toJson value) :: membersToJson members

end

/-- A whole number past 64 bits with sign becomes a double; an array or an object becomes its
text. -/
def toScalar : Document → Scalar
  | null => .null
  | bool b => .bool b
  | whole n =>
      match int64? n with
      | some i => .int64 i
      | none => .float64 (.ofInt n)
  | double x => .float64 x
  | text s => .text s
  | d => .text d.toJson.text

/-- The value at the end of a path of member names. -/
def follow : List String → Document → Option Document
  | [], d => some d
  | name :: path, object members => (members.lookup name).bind (follow path)
  | _ :: _, _ => none

/-- The parts of a dotted name. -/
def pathOf (name : String) : List String :=
  (name.toList.splitOn '.').map String.ofList

def field? : Document → String → Option Scalar
  | object members, name =>
      ((members.lookup name).orElse fun _ => follow (pathOf name) (object members)).map toScalar
  | _, _ => none

def toRecord (d : Document) : Record :=
  ⟨d.field?⟩

end Document

end RecordFilter
