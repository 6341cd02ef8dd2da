import RecordFilter.Keyed
import RecordFilter.Scalar.Basic

/-!
Records, seen as what they answer for the name of a field.
-/

namespace RecordFilter

/-- A field that is there without a value answers null, and one that is not there nothing. -/
structure Record where
  field? : String → Option Scalar

/-- The record of some named values; of the values of one name, the last counts. -/
def Record.ofList (entries : List (String × Scalar)) : Record where
  field? name := (Keyed.ofList entries).lookup name

end RecordFilter
