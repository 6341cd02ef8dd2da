import RecordFilter.Record.Document
import RecordFilter.Proofs.Json.Numbers

/-!
Dotted names as paths into JSON documents. A name made of parts leads from object to object, one
part at a time, where no name of a member has a dot in it; and a member of the outermost object is
found under its whole name, whatever dots are in it.
-/

namespace RecordFilter.Document

open Number

/-- A path of names leads from object to object to a value. -/
inductive Leads : Document → List String → Document → Prop where
  | here (d : Document) : Leads d [] d
  | member {members : List (String × Document)} {name : String} {inner : Document}
      {path : List String} {found : Document} (hmember : members.lookup name = some inner)
      (hpath : Leads inner path found) : Leads (.object members) (name :: path) found

/-- There is no such member: the value is no object, or an object without it. -/
def Lacks (d : Document) (name : String) : Prop :=
  ∀ members, d = .object members → members.lookup name = none

/-- The path comes to a value that lacks the next of its names. -/
def Breaks (d : Document) (path : List String) : Prop :=
  ∃ before name behind reached,
    path = before ++ name :: behind ∧ Leads d before reached ∧ reached.Lacks name

/-- No object that a path leads to, the whole included, has a dot in the name of a member. -/
def Dotless (d : Document) : Prop :=
  ∀ path members, Leads d path (.object members) → ∀ member ∈ members, '.' ∉ member.1.toList

variable {d found inner : Document} {members : List (String × Document)} {name : String}
  {path parts : List String} {v : Scalar}

theorem lacks_object_iff : (object members).Lacks name ↔ members.lookup name = none := by
  constructor
  · intro h
    exact h members rfl
  · rintro h _ ⟨⟩
    exact h

theorem follow_eq_some_iff : follow path d = some found ↔ Leads d path found := by
  constructor
  · intro h
    induction path generalizing d with
    | nil =>
        cases h
        exact .here _
    | cons name path ih =>
        cases d with
        | object members =>
            obtain ⟨inner, hmember, hpath⟩ := Option.bind_eq_some_iff.mp h
            exact .member hmember (ih hpath)
        | _ => cases h
  · intro h
    induction h with
    | here d => rfl
    | member hmember _ ih => rw [follow, hmember, Option.bind_some, ih]

theorem breaks_cons_iff : d.Breaks (name :: path) ↔ d.Lacks name ∨
    ∃ members inner, d = object members ∧ members.lookup name = some inner ∧ inner.Breaks path := by
  constructor
  · rintro ⟨_ | ⟨first, before⟩, last, behind, reached, hpath, hleads, hlacks⟩
    · cases hpath
      cases hleads
      exact .inl hlacks
    · cases hpath
      cases hleads with
      | member hmember hrest =>
          exact .inr ⟨_, _, rfl, hmember, before, last, behind, reached, rfl, hrest, hlacks⟩
  · rintro (hlacks | ⟨members, inner, rfl, hmember, hbreaks⟩)
    · exact ⟨[], name, path, d, rfl, .here d, hlacks⟩
    · obtain ⟨before, last, behind, reached, rfl, hleads, hlacks⟩ := hbreaks
      exact ⟨name :: before, last, behind, reached, rfl, .member hmember hleads, hlacks⟩

theorem follow_eq_none_iff : follow path d = none ↔ d.Breaks path := by
  induction path generalizing d with
  | nil =>
      constructor
      · rintro ⟨⟩
      · rintro ⟨before, name, behind, reached, hpath, -⟩
        simp at hpath
  | cons name path ih =>
      rw [breaks_cons_iff]
      cases d with
      | object members =>
          rw [follow, lacks_object_iff]
          cases hmember : members.lookup name with
          | none => simp
          | some inner => simp [ih, hmember]
      | _ => simp [follow, Lacks]

/-- Parts without dots, joined by dots, are told apart again; they may be empty. -/
theorem pathOf_intercalate (hne : parts ≠ []) (hparts : ∀ part ∈ parts, '.' ∉ part.toList) :
    pathOf (".".intercalate parts) = parts := by
  have hchars : ∀ part ∈ parts.map String.toList, '.' ∉ part := by
    intro chars hmem
    obtain ⟨part, hpart, rfl⟩ := List.mem_map.mp hmem
    exact hparts part hpart
  rw [pathOf, String.toList_intercalate]
  change ((['.'].intercalate (parts.map String.toList)).splitOn '.').map String.ofList = parts
  rw [List.splitOn_intercalate '.' hchars (by simpa using hne), List.map_map]
  simp [Function.comp_def]

theorem lookup_intercalate_eq_none {first second : String} {rest : List String}
    (hnames : ∀ member ∈ members, '.' ∉ member.1.toList) :
    members.lookup (".".intercalate (first :: second :: rest)) = none := by
  rw [List.lookup_eq_none_iff]
  rintro member hmember
  rw [bne_iff_ne]
  intro heq
  refine hnames member hmember (heq ▸ ?_)
  simp [String.intercalate_cons_cons]

/-- Where no name has a dot in it, only the path counts. -/
theorem field?_intercalate (hdotless : d.Dotless) (hne : parts ≠ [])
    (hparts : ∀ part ∈ parts, '.' ∉ part.toList) :
    d.field? (".".intercalate parts) = (follow parts d).map toScalar := by
  cases d with
  | object members =>
      have hnames : ∀ member ∈ members, '.' ∉ member.1.toList := hdotless [] members (.here _)
      rw [field?, pathOf_intercalate hne hparts]
      congr 1
      rcases parts with _ | ⟨first, _ | ⟨second, rest⟩⟩
      · exact absurd rfl hne
      · rw [String.intercalate_singleton, follow]
        cases members.lookup first <;> rfl
      · rw [lookup_intercalate_eq_none hnames]
        rfl
  | _ =>
      rcases parts with _ | ⟨first, rest⟩
      · exact absurd rfl hne
      · rfl

theorem dotless_of_not_object (h : ∀ members, d ≠ object members) : d.Dotless := by
  intro path members hleads
  cases hleads with
  | here => exact absurd rfl (h members)
  | member => exact absurd rfl (h _)

theorem dotless_object (h : ∀ member ∈ members, '.' ∉ member.1.toList ∧ member.2.Dotless) :
    (object members).Dotless := by
  intro path found hleads
  cases hleads with
  | here => exact fun member hmember => (h member hmember).1
  | member hmember hpath =>
      obtain ⟨before, behind, rfl, -⟩ := List.lookup_eq_some_iff.mp hmember
      exact (h _ (List.mem_append_right before List.mem_cons_self)).2 _ _ hpath

theorem field?_of_lookup (h : members.lookup name = some found) :
    (object members).field? name = some found.toScalar := by
  rw [field?, h]
  rfl

theorem field?_of_not_object (h : ∀ members, d ≠ object members) : d.field? name = none := by
  cases d with
  | object members => exact absurd rfl (h members)
  | _ => rfl

/-- A document that is no object has no fields. An object has a field for each of its members, under
the whole name. Where no name has a dot in it, parts joined by dots have the value that they lead
to, and none exactly where they come to a value that is no object or has no such member. -/
theorem field?_dotted (d : Document) :
    ((∀ members, d ≠ object members) → ∀ name, d.field? name = none) ∧
    (∀ members name found, d = object members → members.lookup name = some found →
      d.field? name = some found.toScalar) ∧
    (d.Dotless → ∀ parts, parts ≠ [] → (∀ part ∈ parts, '.' ∉ part.toList) →
      (∀ v, d.field? (".".intercalate parts) = some v ↔
        ∃ found, Leads d parts found ∧ found.toScalar = v) ∧
      (d.field? (".".intercalate parts) = none ↔ d.Breaks parts)) := by
  refine ⟨fun h name => field?_of_not_object h, ?_, ?_⟩
  · rintro members name found rfl h
    exact field?_of_lookup h
  · intro hdotless parts hne hparts
    rw [field?_intercalate hdotless hne hparts]
    refine ⟨?_, ?_⟩
    · intro v
      simp only [Option.map_eq_some_iff, follow_eq_some_iff]
    · rw [Option.map_eq_none_iff, follow_eq_none_iff]

mutual

theorem legible_toJson : (d : Document) → d.toJson.Legible
  | null => .null
  | bool b => .bool b
  | whole n => .number (Numeral.standard_ofInt n)
  | double x => Json.legible_ofBinary decimal_double rfl x
  | text s => .string s
  | array items => .array (legible_itemsToJson items)
  | object members => .object (legible_membersToJson members)

theorem legible_itemsToJson : (items : List Document) → ∀ j ∈ itemsToJson items, j.Legible
  | [] => nofun
  | item :: items => by
      rw [itemsToJson, List.forall_mem_cons]
      exact ⟨legible_toJson item, legible_itemsToJson items⟩

theorem legible_membersToJson :
    (members : List (String × Document)) → ∀ m ∈ membersToJson members, m.2.Legible
  | [] => nofun
  | (_, value) :: members => by
      rw [membersToJson, List.forall_mem_cons]
      exact ⟨legible_toJson value, legible_membersToJson members⟩

end

/-- The arrays and the objects. -/
def Nested : Document → Prop
  | array _ => True
  | object _ => True
  | _ => False

/-- Which values become a field of which kind. A whole number that 64 bits with sign do not hold
becomes a double, and an array or an object a text that stands for it. -/
theorem toScalar_outcome (d : Document) :
    (d.toScalar = .null ↔ d = null) ∧ (∀ b, d.toScalar = .bool b ↔ d = bool b) ∧
    (∀ i, d.toScalar = .int64 i ↔ d = whole i.toInt) ∧
    (∀ x, d.toScalar = .float64 x ↔
      d = double x ∨ ∃ n, d = whole n ∧ int64? n = none ∧ x = .ofInt n) ∧
    (∀ s, d.toScalar = .text s ↔ d = text s ∨ d.Nested ∧ d.toJson.text = s) ∧
    Json.ofText? d.toJson.text = some d.toJson := by
  have hread := Json.ofText?_text d.legible_toJson
  cases d with
  | whole n =>
      cases hn : int64? n with
      | none =>
          have hpast : ∀ i : Int64, n ≠ i.toInt := by
            rintro i rfl
            rw [int64?_toInt] at hn
            cases hn
          simp [toScalar, hn, hpast, Nested, hread, eq_comm]
      | some i =>
          have hi := int64?_eq_some hn
          have hsame : ∀ j : Int64, i = j ↔ n = j.toInt := fun j => by
            rw [← hi, Int64.toInt_inj]
          simp [toScalar, hn, hsame, Nested, hread]
  | _ => simp [toScalar, Nested, hread]

/-- An empty name is a part as any other; null is a value, and a path breaks behind a text. -/
theorem field?_dotted_nested :
    let d := object [("owner", object [("", whole 1), ("name", text "ops")]), ("retired", null)]
    d.Dotless ∧ d.field? "owner." = some (.int64 1) ∧ d.field? "retired" = some .null ∧
      d.field? "owner.name.first" = none := by
  intro d
  have howner : (object [("", whole 1), ("name", text "ops")]).Dotless := by
    refine dotless_object ?_
    simp [dotless_of_not_object]
  have hdotless : d.Dotless := by
    refine dotless_object ?_
    simp [howner, dotless_of_not_object]
  have hparts := (field?_dotted d).2.2 hdotless
  refine ⟨hdotless, ?_, ?_, ?_⟩
  · exact ((hparts ["owner", ""] (by decide) (by decide)).1 _).mpr
      ⟨whole 1, .member rfl (.member rfl (.here _)), rfl⟩
  · exact ((hparts ["retired"] (by decide) (by decide)).1 _).mpr ⟨null, .member rfl (.here _), rfl⟩
  · refine (hparts ["owner", "name", "first"] (by decide) (by decide)).2.mpr ?_
    exact ⟨["owner", "name"], "first", [], text "ops", rfl,
      .member rfl (.member rfl (.here _)), nofun⟩

end RecordFilter.Document
