import RecordFilter.Json.Decode
import RecordFilter.Json.Reader
import RecordFilter.Json.Printer

/-!
What a deployment may set: the field that holds the tenant of a record.
-/

namespace RecordFilter

structure Settings where
  tenantField : String := "tenant_id"
  deriving DecidableEq

namespace Settings

/-- Settings from JSON; what is not there keeps its default. -/
def ofJson? : Nat → Json → Option Settings
  | 0, _ => none
  | _ + 1, j => do
      match ← Json.fields? ["tenant_field"] j with
      | [some field] => return ⟨← field.text?⟩
      | _ => return {}

def ofJsonText? (s : String) : Option Settings :=
  (Json.ofText? s).bind (ofJson? Json.nestingLimit)

def toJson (s : Settings) : Json :=
  .object [("tenant_field", .string s.tenantField)]

end Settings

end RecordFilter
