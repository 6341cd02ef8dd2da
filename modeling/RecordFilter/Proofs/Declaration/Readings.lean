import RecordFilter.Declaration.Basic
import RecordFilter.Proofs.Scalar.Native

/-!
What a declaration exposes, read in two ways: as the catalog of a record type, and as a record with
the values of one value of that type. Both have the same names. Where a name is exposed more than
once, the record answers with the first member and the catalog has the kind of the last one.
-/

namespace RecordFilter

namespace MemberType

/-- Whatever is not null is of the kind of the type. -/
theorem kind?_toScalar (t : MemberType) (v : t.Value) :
    t.toScalar v = .null ∨ (t.toScalar v).kind? = some t.kind := by
  induction t with
  | option inner ih =>
      cases v with
      | none => exact .inl rfl
      | some v => exact ih v
  | _ => exact .inr rfl

theorem exists_kind?_toScalar (t : MemberType) :
    ∃ v : t.Value, (t.toScalar v).kind? = some t.kind := by
  induction t with
  | string => exact ⟨"", rfl⟩
  | i8 => exact ⟨(0 : Int8), rfl⟩
  | i16 => exact ⟨(0 : Int16), rfl⟩
  | i32 => exact ⟨(0 : Int32), rfl⟩
  | u8 => exact ⟨(0 : UInt8), rfl⟩
  | u16 => exact ⟨(0 : UInt16), rfl⟩
  | i64 => exact ⟨(0 : Int64), rfl⟩
  | u32 => exact ⟨(0 : UInt32), rfl⟩
  | f32 => exact ⟨Number.Binary.nan, rfl⟩
  | f64 => exact ⟨Number.Binary.nan, rfl⟩
  | bool => exact ⟨true, rfl⟩
  | option inner ih =>
      obtain ⟨v, hv⟩ := ih
      exact ⟨some v, hv⟩

end MemberType

namespace Exposure

variable {x : Exposure} {readings : List Exposed.Reading} {name : String}

/-- The readings give each exposed member a value. -/
def Reads (x : Exposure) (readings : List Exposed.Reading) : Prop :=
  readings.map (·.exposed) = x.fields

def first? (x : Exposure) (name : String) : Option Exposed :=
  x.fields.find? (·.name == name)

def last? (x : Exposure) (name : String) : Option Exposed :=
  x.fields.reverse.find? (·.name == name)

theorem Reads.first?_eq (h : x.Reads readings) (name : String) :
    x.first? name = (readings.find? (·.exposed.name == name)).map (·.exposed) := by
  rw [first?, ← h, List.find?_map]
  rfl

theorem field?_catalog (x : Exposure) (name : String) :
    x.schema.catalog.field? name = (x.last? name).map fun e => ⟨e.name, e.type.kind⟩ := by
  rw [Schema.field?_catalog, schema, ← List.map_reverse, List.find?_map]
  rfl

theorem isSome_last? (x : Exposure) (name : String) :
    (x.last? name).isSome = (x.first? name).isSome := by
  rw [last?, first?, Bool.eq_iff_iff, List.find?_isSome, List.find?_isSome]
  simp only [List.mem_reverse]

theorem first?_eq_last?_of_nodup (h : (x.fields.map (·.name)).Nodup) (name : String) :
    x.first? name = x.last? name := by
  cases hfirst : x.first? name with
  | none =>
      have hnone := x.isSome_last? name
      rw [hfirst, Option.isSome_none, Option.isSome_eq_false_iff, Option.isNone_iff_eq_none] at hnone
      exact hnone.symm
  | some first =>
      obtain ⟨last, hlast⟩ : ∃ last, x.last? name = some last := by
        rw [← Option.isSome_iff_exists, isSome_last?, hfirst]
        rfl
      have hname : first.name = last.name := by
        have hf := List.find?_some hfirst
        have hl := List.find?_some hlast
        rw [beq_iff_eq] at hf hl
        rw [hf, hl]
      have hmem : last ∈ x.fields := List.mem_reverse.mp (List.mem_of_find?_eq_some hlast)
      rw [hlast, List.inj_on_of_nodup_map h (List.mem_of_find?_eq_some hfirst) hmem hname]

theorem Reads.isSome_field? (h : x.Reads readings) (name : String) :
    ((Record.ofReadings readings).field? name).isSome = (x.schema.catalog.field? name).isSome := by
  rw [field?_catalog, Option.isSome_map, isSome_last?, h.first?_eq, Option.isSome_map]
  exact Option.isSome_map

/-- What the record answers is null or of the kind of the first member of the name. -/
theorem Reads.kind?_of_field? (h : x.Reads readings) {v : Scalar}
    (hv : (Record.ofReadings readings).field? name = some v) :
    ∃ first, x.first? name = some first ∧ (v = .null ∨ v.kind? = some first.type.kind) := by
  obtain ⟨r, hr, rfl⟩ := Option.map_eq_some_iff.mp hv
  exact ⟨r.exposed, by rw [h.first?_eq, hr]; rfl, r.exposed.type.kind?_toScalar r.value⟩

/-- Some value of the type makes the record answer with a value that is not null. -/
theorem exists_reads (x : Exposure) : ∃ readings, x.Reads readings ∧
    ∀ name first, x.first? name = some first →
      ∃ v, (Record.ofReadings readings).field? name = some v ∧ v.kind? = some first.type.kind := by
  choose value hvalue using MemberType.exists_kind?_toScalar
  refine ⟨x.fields.map fun e => ⟨e, value e.type⟩, ?_, ?_⟩
  · rw [Reads, List.map_map]
    exact List.map_id _
  · intro name first hfirst
    refine ⟨first.type.toScalar (value first.type), ?_, hvalue first.type⟩
    show ((x.fields.map fun e => (⟨e, value e.type⟩ : Exposed.Reading)).find?
      (·.exposed.name == name)).map _ = _
    have hfound : (x.fields.find? (·.name == name)) = some first := hfirst
    rw [List.find?_map]
    simp only [Function.comp_def, hfound]
    rfl

end Exposure

namespace Declaration

theorem Member.member_expose {m : Member} {e : Exposed} (h : m.expose = .ok e) :
    e.member = m.name := by
  unfold expose at h
  simp only [bind, Except.bind] at h
  split at h
  · cases h
  · split at h
    · cases h
      rfl
    · cases h

theorem map_member_of_mapM {members : List Member} {fields : List Exposed}
    (h : members.mapM Member.expose = .ok fields) :
    fields.map (·.member) = members.map (·.name) := by
  induction members generalizing fields with
  | nil =>
      cases h
      rfl
  | cons m members ih =>
      rw [List.mapM_cons] at h
      simp only [bind, Except.bind] at h
      split at h
      · cases h
      · rename_i e he
        split at h
        · cases h
        · rename_i rest hrest
          cases h
          rw [List.map_cons, List.map_cons, Member.member_expose he, ih hrest]

theorem map_member_of_expose {d : Declaration} {x : Exposure} (h : d.expose = .ok x) :
    x.fields.map (·.member) = (d.members.filter Member.isExposed).map (·.name) := by
  unfold expose at h
  simp only [bind, Except.bind] at h
  split at h
  · cases h
  · split at h
    · split at h
      · cases h
      · rename_i fields hfields
        cases h
        exact map_member_of_mapM hfields
    all_goals cases h

/-- A declaration exposes the marked members in their order. For every value of the type, the record
answers for the names in the catalog and for no others. What it answers is null or of the kind in the
catalog, for every value, exactly where the first and the last member of each name have one kind. -/
theorem readings_of_expose {d : Declaration} {x : Exposure} (h : d.expose = .ok x) :
    x.fields.map (·.member) = (d.members.filter Member.isExposed).map (·.name) ∧
    (∀ readings, x.Reads readings → ∀ name,
      (x.schema.catalog.field? name).isSome = ((Record.ofReadings readings).field? name).isSome) ∧
    ((∀ readings, x.Reads readings → ∀ name v field,
        (Record.ofReadings readings).field? name = some v →
        x.schema.catalog.field? name = some field → v = .null ∨ v.kind? = some field.kind) ↔
      ∀ name first last, x.first? name = some first → x.last? name = some last →
        first.type.kind = last.type.kind) := by
  refine ⟨map_member_of_expose h, fun readings hreads name => (hreads.isSome_field? name).symm, ?_⟩
  constructor
  · intro hagree name first last hfirst hlast
    obtain ⟨readings, hreads, hkinds⟩ := x.exists_reads
    obtain ⟨v, hv, hkind⟩ := hkinds name first hfirst
    have hfield : x.schema.catalog.field? name = some ⟨last.name, last.type.kind⟩ := by
      rw [Exposure.field?_catalog, hlast]
      rfl
    rcases hagree readings hreads name v _ hv hfield with rfl | hsame
    · cases hkind
    · exact Option.some.inj (hkind.symm.trans hsame)
  · intro hkinds readings hreads name v field hv hfield
    obtain ⟨first, hfirst, hkind⟩ := hreads.kind?_of_field? hv
    rw [Exposure.field?_catalog] at hfield
    obtain ⟨last, hlast, rfl⟩ := Option.map_eq_some_iff.mp hfield
    rwa [hkinds name first last hfirst hlast] at hkind

/-- Names that differ are enough. -/
theorem readings_of_expose_renamed :
    let attributes (name : String) : List Attribute :=
      [⟨"filterable", .options [⟨"rename", .text name⟩]⟩]
    let d : Declaration := ⟨.named, "Event", [],
      [⟨"user_id", "std::string::String", attributes "userId"⟩, ⟨"secret", "Vec<u8>", []⟩,
        ⟨"latency", "Option<Option<u32>>", attributes "user_id"⟩]⟩
    let x : Exposure := ⟨"Event",
      [⟨"userId", .string, "user_id"⟩, ⟨"user_id", .option (.option .u32), "latency"⟩]⟩
    d.expose = .ok x ∧
      ∀ readings, x.Reads readings → ∀ name v field,
        (Record.ofReadings readings).field? name = some v →
        x.schema.catalog.field? name = some field → v = .null ∨ v.kind? = some field.kind := by
  intro attributes d x
  have hexpose : d.expose = .ok x := by decide
  have hnodup : (x.fields.map (·.name)).Nodup := by decide
  refine ⟨hexpose, (readings_of_expose hexpose).2.2.mpr ?_⟩
  intro name first last hfirst hlast
  rw [Exposure.first?_eq_last?_of_nodup hnodup, hlast] at hfirst
  rw [Option.some.inj hfirst]

/-- Two members of different kinds under one name: the record answers with text where the catalog has
whole numbers. -/
theorem readings_of_repeated_name :
    let attributes : List Attribute := [⟨"filterable", .options [⟨"rename", .text "x"⟩]⟩]
    let d : Declaration :=
      ⟨.named, "Pair", [], [⟨"a", "String", attributes⟩, ⟨"b", "i32", attributes⟩]⟩
    ∃ x readings, d.expose = .ok x ∧ x.Reads readings ∧
      (Record.ofReadings readings).field? "x" = some (.text "one") ∧
      x.schema.catalog.field? "x" = some ⟨"x", .int32⟩ ∧ (Scalar.text "one").kind? ≠ some .int32 := by
  intro attributes d
  refine ⟨⟨"Pair", [⟨"x", .string, "a"⟩, ⟨"x", .i32, "b"⟩]⟩,
    [⟨⟨"x", .string, "a"⟩, "one"⟩, ⟨⟨"x", .i32, "b"⟩, (1 : Int32)⟩], ?_, rfl, rfl, rfl, ?_⟩
  · decide
  · decide

end Declaration

end RecordFilter
