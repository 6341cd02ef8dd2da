import RecordFilter.Number.Numeral

/-!
JSON documents as written: members in their order, repeated names included, and numbers with their
digits.
-/

namespace RecordFilter

inductive Json where
  | null
  | bool (b : Bool)
  | number (n : Number.Numeral)
  | string (s : String)
  /-- Text that is well-formed but stands for no value: it names one half of a surrogate pair. -/
  | garbled
  | array (items : List Json)
  | object (members : List (String × Json))

namespace Json

def ofInt (n : Int) : Json :=
  .number (.ofInt n)

/-- An object with one member, as a variant with a payload is written. -/
def tagged (name : String) (payload : Json) : Json :=
  .object [(name, payload)]

end Json

end RecordFilter
