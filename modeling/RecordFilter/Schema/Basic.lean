import RecordFilter.Keyed
import RecordFilter.Scalar.Kind

/-!
The fields of a record type: as declared, and as looked up by name.
-/

namespace RecordFilter

structure Field where
  name : String
  kind : Kind
  deriving DecidableEq

/-- A record type and its fields as declared, where a name may be repeated. -/
structure Schema where
  recordType : String
  fields : List Field
  deriving DecidableEq

/-- A record type with one kind for each name, in the order of the names. -/
structure Catalog where
  recordType : String
  kinds : List (String × Kind)
  deriving DecidableEq

/-- Of several declarations of one name, the last counts. -/
def Schema.catalog (s : Schema) : Catalog where
  recordType := s.recordType
  kinds := Keyed.ofList (s.fields.map fun field => (field.name, field.kind))

namespace Catalog

def kind? (c : Catalog) (name : String) : Option Kind :=
  c.kinds.lookup name

def field? (c : Catalog) (name : String) : Option Field :=
  (c.kind? name).map fun kind => ⟨name, kind⟩

/-- The names of the fields with the names of their types. -/
def typeNames (c : Catalog) : List (String × String) :=
  c.kinds.map fun (name, kind) => (name, kind.typeName)

end Catalog

theorem lookup_map_name (fields : List Field) (name : String) :
    (fields.map fun field => (field.name, field.kind)).lookup name =
      (fields.find? (·.name == name)).map (·.kind) := by
  induction fields with
  | nil => rfl
  | cons field rest ih =>
      rw [List.map_cons, List.lookup_cons, List.find?_cons, Bool.beq_comm (a := name), ih]
      cases field.name == name <;> rfl

theorem Schema.kind?_catalog (s : Schema) (name : String) :
    s.catalog.kind? name = (s.fields.reverse.find? (·.name == name)).map (·.kind) := by
  rw [Catalog.kind?, Schema.catalog, Keyed.lookup_ofList, ← List.map_reverse, lookup_map_name]

/-- A look-up gives the last declaration of the name. -/
theorem Schema.field?_catalog (s : Schema) (name : String) :
    s.catalog.field? name = s.fields.reverse.find? (·.name == name) := by
  rw [Catalog.field?, kind?_catalog]
  cases h : s.fields.reverse.find? (·.name == name) with
  | none => rfl
  | some field =>
      have hname := List.find?_some h
      rw [beq_iff_eq] at hname
      rw [← hname]
      rfl

end RecordFilter
