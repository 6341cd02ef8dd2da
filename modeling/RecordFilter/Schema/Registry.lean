import RecordFilter.Schema.Basic

/-!
Catalogs kept for each record type from its first use on. Every catalog that is made is given a
number of its own, so that two look-ups can be seen to give one and the same catalog.
-/

namespace RecordFilter

structure Registry.Entry where
  serial : Nat
  catalog : Catalog
  deriving DecidableEq

/-- The entries of the record types used so far, and how many catalogs were made in all. -/
structure Registry (κ : Type) where
  entries : List (κ × Registry.Entry) := []
  issued : Nat := 0

namespace Registry

variable {κ : Type}

def size (r : Registry κ) : Nat :=
  r.entries.length

def clear (r : Registry κ) : Registry κ :=
  { r with entries := [] }

variable [DecidableEq κ]

/-- The entry of a record type, made from its schema if there is none yet. -/
def obtain (key : κ) (schema : Schema) (r : Registry κ) : Entry × Registry κ :=
  match r.entries.lookup key with
  | some entry => (entry, r)
  | none =>
      let entry : Entry := ⟨r.issued, schema.catalog⟩
      (entry, ⟨(key, entry) :: r.entries, r.issued + 1⟩)

/-- The names of the fields of a record type with the names of their types. -/
def describe (key : κ) (schema : Schema) (r : Registry κ) :
    List (String × String) × Registry κ :=
  let (entry, used) := r.obtain key schema
  (entry.catalog.typeNames, used)

theorem lookup_obtain (key : κ) (schema : Schema) (r : Registry κ) :
    (r.obtain key schema).2.entries.lookup key = some (r.obtain key schema).1 := by
  unfold obtain
  split
  · assumption
  · simp

end Registry

end RecordFilter
