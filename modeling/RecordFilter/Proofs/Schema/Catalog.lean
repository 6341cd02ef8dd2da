import RecordFilter.Proofs.Text.Bytes
import RecordFilter.Schema.Basic

/-!
What a catalog lists: of every declared name the last declaration, in the order of the names' bytes.
-/

namespace RecordFilter

/-- The catalog has the record type of the schema and the last declaration of every name; its fields
and the names of their types are listed once each, and the fields in the order of the bytes. -/
structure Catalog.Lists (c : Catalog) (s : Schema) : Prop where
  recordType : c.recordType = s.recordType
  last : ∀ name, c.field? name = s.fields.reverse.find? (·.name == name)
  kinds : ∀ name kind, (name, kind) ∈ c.kinds ↔ c.field? name = some ⟨name, kind⟩
  ascending : (c.kinds.map fun entry => Text.bytes entry.1).Pairwise (· < ·)
  typeNames : ∀ name type, (name, type) ∈ c.typeNames ↔
    ∃ kind : Kind, c.field? name = some ⟨name, kind⟩ ∧ kind.typeName = type
  sameNames : c.typeNames.map (·.1) = c.kinds.map (·.1)

theorem Catalog.field?_eq_some_iff {c : Catalog} {name : String} {kind : Kind} :
    c.field? name = some ⟨name, kind⟩ ↔ c.kinds.lookup name = some kind := by
  rw [field?, kind?, Option.map_eq_some_iff]
  simp

theorem Schema.lists_catalog (s : Schema) : s.catalog.Lists s := by
  have hsorted : Keyed.Sorted s.catalog.kinds := Keyed.sorted_ofList _
  have hkinds : ∀ name kind,
      (name, kind) ∈ s.catalog.kinds ↔ s.catalog.field? name = some ⟨name, kind⟩ := by
    intro name kind
    rw [Catalog.field?_eq_some_iff, Keyed.mem_iff_lookup hsorted.nodup]
  refine ⟨rfl, s.field?_catalog, hkinds, ?_, ?_, ?_⟩
  · rw [List.pairwise_map]
    exact hsorted.imp Text.bytes_lt_iff.mpr
  · intro name type
    rw [Catalog.typeNames, List.mem_map]
    constructor
    · rintro ⟨⟨other, kind⟩, hmem, ⟨⟩⟩
      exact ⟨kind, (hkinds name kind).mp hmem, rfl⟩
    · rintro ⟨kind, hfield, rfl⟩
      exact ⟨(name, kind), (hkinds name kind).mpr hfield, rfl⟩
  · rw [Catalog.typeNames, List.map_map]
    rfl

end RecordFilter
