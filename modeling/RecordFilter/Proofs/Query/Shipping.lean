import RecordFilter.Query.Json
import RecordFilter.Proofs.Query.Extent
import RecordFilter.Proofs.Scalar.Shipping

/-!
Queries sent as JSON. The text written for a query is read back as that query where its document
nests no deeper than a reader allows and each of its values is read back on its own. How deep it
nests depends on how many conditions the filter has, and its values on the kinds of the fields.
-/

namespace RecordFilter

theorem Comparison.lookup_table (c : Comparison) : Comparison.table.lookup c.name = some c := by
  cases c <;> rfl

namespace Query

open Number (Double)

variable {room : ℕ} {left right q : Query}

/-- The values of the query are read back, each on its own. -/
def ValuesReturn (q : Query) : Prop :=
  ∀ v ∈ q.arguments, Scalar.ofJson? 1 v.toJson = some v

theorem legible_toJson (q : Query) : q.toJson.Legible := by
  induction q with
  | all => exact .string "True"
  | compare field comparison value =>
      refine (Json.Legible.object ?_).tagged "Compare"
      simp [Json.Legible.string, value.legible_toJson]
  | contains field value negated =>
      refine (Json.Legible.object ?_).tagged "Contains"
      simp [Json.Legible.string, Json.Legible.bool]
  | between field least greatest =>
      refine (Json.Legible.object ?_).tagged "Between"
      simp [Json.Legible.string, least.legible_toJson, greatest.legible_toJson]
  | isNull field => exact (Json.Legible.string field).tagged "IsNull"
  | isNotNull field => exact (Json.Legible.string field).tagged "IsNotNull"
  | and left right ihLeft ihRight =>
      refine (Json.Legible.array ?_).tagged "And"
      simp [ihLeft, ihRight]
  | or left right ihLeft ihRight =>
      refine (Json.Legible.array ?_).tagged "Or"
      simp [ihLeft, ihRight]

theorem nesting_compare (field : String) (comparison : Comparison) (value : Scalar) :
    (compare field comparison value).toJson.nesting = value.toJson.nesting + 2 := by
  simp [toJson, Json.nesting_tagged, Json.nesting, Json.membersNesting]

theorem nesting_between (field : String) (least greatest : Scalar) :
    (between field least greatest).toJson.nesting =
      max least.toJson.nesting greatest.toJson.nesting + 2 := by
  simp [toJson, Json.nesting_tagged, Json.nesting, Json.membersNesting]

theorem nesting_compound (l : Connective) (left right : Query) :
    (compound l left right).toJson.nesting =
      max left.toJson.nesting right.toJson.nesting + 2 := by
  cases l <;>
    simp [compound, toJson, Json.nesting_tagged, Json.nesting, Json.itemsNesting]

theorem ofJson?_compare (room : ℕ) (field : String) (comparison : Comparison) (value : Scalar) :
    ofJson? room (compare field comparison value).toJson = some (compare field comparison value) ↔
      (compare field comparison value).toJson.nesting ≤ room ∧
        Scalar.ofJson? 1 value.toJson = some value := by
  have hfields : Json.allFields? ["field", "comparison", "value"] (.object
      [("field", .string field), ("comparison", .string comparison.name),
        ("value", value.toJson)]) =
      some [.string field, .string comparison.name, value.toJson] :=
    Json.allFields?_object rfl (by decide)
  rw [nesting_compare]
  rcases room with _ | _ | room
  · simp [toJson, Json.tagged, ofJson?]
  · simp [toJson, Json.tagged, ofJson?, compareOfJson?]
  · rw [toJson, Json.tagged, ofJson?, compareOfJson?, hfields]
    by_cases h : value.toJson.nesting ≤ room <;>
      simp [Json.text?, Json.choice?_string, Comparison.lookup_table, Scalar.ofJson?_toJson room, h,
        Option.bind_eq_some_iff]

theorem ofJson?_contains (room : ℕ) (field value : String) (negated : Bool) :
    ofJson? room (contains field value negated).toJson = some (contains field value negated) ↔
      (contains field value negated).toJson.nesting ≤ room := by
  have hnesting : (contains field value negated).toJson.nesting = 2 := rfl
  have hfields : Json.allFields? ["field", "value", "negated"] (.object
      [("field", .string field), ("value", .string value), ("negated", .bool negated)]) =
      some [.string field, .string value, .bool negated] :=
    Json.allFields?_object rfl (by decide)
  rw [hnesting]
  rcases room with _ | _ | room
  · simp [toJson, Json.tagged, ofJson?]
  · simp [toJson, Json.tagged, ofJson?, containsOfJson?]
  · rw [toJson, Json.tagged, ofJson?, containsOfJson?, hfields]
    simp [Json.text?, Json.bool?]

theorem ofJson?_between (room : ℕ) (field : String) (least greatest : Scalar) :
    ofJson? room (between field least greatest).toJson = some (between field least greatest) ↔
      (between field least greatest).toJson.nesting ≤ room ∧
        Scalar.ofJson? 1 least.toJson = some least ∧
        Scalar.ofJson? 1 greatest.toJson = some greatest := by
  have hfields : Json.allFields? ["field", "min", "max"] (.object
      [("field", .string field), ("min", least.toJson), ("max", greatest.toJson)]) =
      some [.string field, least.toJson, greatest.toJson] :=
    Json.allFields?_object rfl (by decide)
  rw [nesting_between]
  rcases room with _ | _ | room
  · simp [toJson, Json.tagged, ofJson?]
  · simp [toJson, Json.tagged, ofJson?, betweenOfJson?]
  · rw [toJson, Json.tagged, ofJson?, betweenOfJson?, hfields]
    by_cases hleast : least.toJson.nesting ≤ room <;>
      by_cases hgreatest : greatest.toJson.nesting ≤ room <;>
      simp [Json.text?, Scalar.ofJson?_toJson room, hleast, hgreatest, Option.bind_eq_some_iff]

theorem ofJson?_compound (l : Connective) (hleft : ∀ room, ofJson? room left.toJson = some left ↔
      left.toJson.nesting ≤ room ∧ left.ValuesReturn)
    (hright : ∀ room, ofJson? room right.toJson = some right ↔
      right.toJson.nesting ≤ room ∧ right.ValuesReturn) :
    ofJson? room (compound l left right).toJson = some (compound l left right) ↔
      (compound l left right).toJson.nesting ≤ room ∧ (compound l left right).ValuesReturn := by
  have hvalues : (compound l left right).ValuesReturn ↔ left.ValuesReturn ∧ right.ValuesReturn := by
    cases l <;> exact List.forall_mem_append
  have hread : ofJson? room (compound l left right).toJson = some (compound l left right) ↔
      ∃ inner, room = inner + 2 ∧
        ofJson? inner left.toJson = some left ∧ ofJson? inner right.toJson = some right := by
    rcases room with _ | _ | room
    · cases l <;> simp [compound, toJson, Json.tagged, ofJson?]
    · cases l <;> simp [compound, toJson, Json.tagged, ofJson?, pairOfJson?]
    · cases l <;>
        simp [compound, toJson, Json.tagged, ofJson?, pairOfJson?, Option.bind_eq_some_iff]
  rw [hread, hvalues, nesting_compound]
  constructor
  · rintro ⟨inner, rfl, hreadLeft, hreadRight⟩
    obtain ⟨hleftRoom, hleftValues⟩ := (hleft inner).mp hreadLeft
    obtain ⟨hrightRoom, hrightValues⟩ := (hright inner).mp hreadRight
    exact ⟨Nat.add_le_add_right (max_le hleftRoom hrightRoom) 2, hleftValues, hrightValues⟩
  · rintro ⟨hroom, hleftValues, hrightValues⟩
    refine ⟨room - 2, by omega, ?_, ?_⟩
    · exact (hleft _).mpr ⟨by omega, hleftValues⟩
    · exact (hright _).mpr ⟨by omega, hrightValues⟩

/-- A query is read back where its document nests no deeper than there is room and its values are
read back, and nowhere else. -/
theorem ofJson?_toJson_iff (room : ℕ) (q : Query) :
    ofJson? room q.toJson = some q ↔ q.toJson.nesting ≤ room ∧ q.ValuesReturn := by
  induction q generalizing room with
  | all => cases room <;> simp [toJson, ofJson?, Json.nesting, ValuesReturn, arguments]
  | compare field comparison value =>
      rw [ofJson?_compare, ValuesReturn, arguments, List.forall_mem_singleton]
  | contains field value negated =>
      have hpattern : Scalar.ofJson? 1 (Scalar.text (Sql.containsPattern value)).toJson =
          some (.text (Sql.containsPattern value)) := rfl
      rw [ofJson?_contains, ValuesReturn, arguments, List.forall_mem_singleton,
        and_iff_left hpattern]
  | between field least greatest =>
      rw [ofJson?_between, ValuesReturn, arguments, List.forall_mem_cons,
        List.forall_mem_singleton]
  | isNull field =>
      cases room <;>
        simp [toJson, Json.tagged, ofJson?, Json.text?, Json.nesting, Json.membersNesting,
          ValuesReturn, arguments]
  | isNotNull field =>
      cases room <;>
        simp [toJson, Json.tagged, ofJson?, Json.text?, Json.nesting, Json.membersNesting,
          ValuesReturn, arguments]
  | and left right ihLeft ihRight => exact ofJson?_compound .and ihLeft ihRight
  | or left right ihLeft ihRight => exact ofJson?_compound .or ihLeft ihRight

theorem ofJsonText?_text_iff (q : Query) :
    ofJsonText? q.toJson.text = some q ↔
      q.toJson.nesting ≤ Json.nestingLimit ∧ q.ValuesReturn := by
  rw [ofJsonText?, Json.ofText?_text q.legible_toJson, Option.bind_some, ofJson?_toJson_iff]

theorem nesting_compound_le (l : Connective) (hleft : left.toJson.nesting ≤ 2 * left.width + 1)
    (hright : right.toJson.nesting ≤ 2 * right.width + 1) :
    (compound l left right).toJson.nesting ≤ 2 * (left.width + right.width) + 1 := by
  have hleftPos := left.width_pos
  have hrightPos := right.width_pos
  rw [nesting_compound]
  omega

/-- Of two queries joined, each is two containers deeper than before. -/
theorem nesting_toJson_le (q : Query) : q.toJson.nesting ≤ 2 * q.width + 1 := by
  induction q with
  | all => exact Nat.zero_le _
  | compare field comparison value =>
      have hvalue := value.nesting_toJson_le
      rw [nesting_compare]
      exact Nat.add_le_add_right hvalue 2
  | contains field value negated => exact Nat.le_succ 2
  | between field least greatest =>
      have hvalues := max_le least.nesting_toJson_le greatest.nesting_toJson_le
      rw [nesting_between]
      exact Nat.add_le_add_right hvalues 2
  | isNull field => exact Nat.le_add_left 1 2
  | isNotNull field => exact Nat.le_add_left 1 2
  | and left right ihLeft ihRight => exact nesting_compound_le .and ihLeft ihRight
  | or left right ihLeft ihRight => exact nesting_compound_le .or ihLeft ihRight

variable {settings : Settings} {s : Schema} {tenant : Option String} {f : Filter}

theorem nesting_le_of_ofFilter {catalog : Catalog}
    (h : (ofFilter settings catalog tenant f).result = .ok q) :
    q.toJson.nesting ≤ 2 * f.size + 3 := by
  have hany : catalog.Ensures fun _ => True := ⟨fun _ => trivial, fun _ _ _ _ => trivial⟩
  have hwidth := (within_ofFilter hany h).width_le
  have hnesting := q.nesting_toJson_le
  omega

theorem ensures_concise
    (hkinds : ∀ field ∈ s.fields, field.kind ≠ .float32 ∧ field.kind ≠ .float64) :
    s.catalog.Ensures Scalar.Concise := by
  refine ⟨fun _ => trivial, ?_⟩
  intro name kind hkind literal v hv
  rw [Schema.kind?_catalog, Option.map_eq_some_iff] at hkind
  obtain ⟨field, hfound, rfl⟩ := hkind
  have hfield := List.mem_reverse.mp (List.mem_of_find?_eq_some hfound)
  exact Scalar.concise_of_convert? (hkinds field hfield) hv

theorem valuesReturn_of_concise (h : ∀ v ∈ q.arguments, v.Concise) : q.ValuesReturn :=
  fun v hv => Scalar.ofJson?_toJson_of_concise (h v hv)

/-- The query that a filter has for a tenant is read back from its text where the document is not
too deep and each value is read back, and nowhere else. Up to 62 conditions are never too deep, and
the values are read back that are no binary numbers or that have few digits; those of a schema
without binary numbers all are. -/
theorem ofJsonText?_text_of_ofFilter
    (h : (ofFilter settings s.catalog tenant f).result = .ok q) :
    (ofJsonText? q.toJson.text = some q ↔
      q.toJson.nesting ≤ Json.nestingLimit ∧ q.ValuesReturn) ∧
    (f.size ≤ 62 → q.toJson.nesting ≤ Json.nestingLimit) ∧
    ((∀ v ∈ q.arguments, v.Concise) → q.ValuesReturn) ∧
    ((∀ field ∈ s.fields, field.kind ≠ .float32 ∧ field.kind ≠ .float64) →
      ∀ v ∈ q.arguments, v.Concise) := by
  refine ⟨ofJsonText?_text_iff q, ?_, valuesReturn_of_concise, ?_⟩
  · intro hsize
    have hnesting := nesting_le_of_ofFilter h
    rw [Json.nestingLimit]
    omega
  · intro hkinds
    exact (within_ofFilter (ensures_concise hkinds) h).values

/-- A whole number, a single, a double and a literal without a value, narrowed to a tenant. -/
theorem ofJsonText?_text_of_ofFilter_mixed :
    let s : Schema := ⟨"Session", [⟨"id", .int64⟩, ⟨"ratio", .float32⟩, ⟨"score", .float64⟩]⟩
    let f : Filter := [.condition ⟨"id", .greaterThan, .text "-9", .or⟩,
      .group .or [.condition ⟨"score", .between, .text "0.1:many", .and⟩,
        .condition ⟨"ratio", .lessThan, .text "-0.1", .or⟩]]
    let q : Query := .and
      (.or (.compare "id" .greaterThan (.int64 (-9)))
        (.or (.between "score" (.float64 (.finite false 7205759403792794 (-56) (by decide)))
            (.text "many"))
          (.compare "ratio" .lessThan (.float32 (.finite true 13421773 (-27) (by decide))))))
      (.compare "tenant_id" .equal (.text "acme"))
    (ofFilter {} s.catalog (some "acme") f).result = .ok q ∧
      ofJsonText? q.toJson.text = some q := by
  intro s f q
  have hquery : (ofFilter {} s.catalog (some "acme") f).result = .ok q := rfl
  obtain ⟨hiff, hdepth, hvalues, -⟩ := ofJsonText?_text_of_ofFilter hquery
  exact ⟨hquery, hiff.mpr ⟨hdepth (by decide), hvalues (by decide +kernel)⟩⟩

/-- An infinity is written as `null`, so that no query is read at all, and of some doubles the last
digit is lost, so that another query is read. -/
theorem ofJsonText?_text_not_shipped :
    let s : Schema := ⟨"Session", [⟨"score", .float64⟩]⟩
    let found (literal : String) :=
      (ofFilter {} s.catalog none [.condition ⟨"score", .equal, .text literal, .or⟩]).result
    let q (x : Double) : Query := .compare "score" .equal (.float64 x)
    let written : Double := .finite false 8307674973655725 (-52) (by decide)
    let read : Double := .finite false 8307674973655724 (-52) (by decide)
    (found "inf" = .ok (q (.infinite false)) ∧
      ofJsonText? (q (.infinite false)).toJson.text = none) ∧
    found "1.8446744073709553" = .ok (q written) ∧
      ofJsonText? (q written).toJson.text = some (q read) ∧ q read ≠ q written := by
  intro s found q written read
  refine ⟨⟨rfl, ?_⟩, rfl, ?_, by decide⟩
  · rw [ofJsonText?, Json.ofText?_text (q (.infinite false)).legible_toJson]
    rfl
  · rw [ofJsonText?, Json.ofText?_text (q written).legible_toJson, Option.bind_some]
    decide +kernel

end Query

end RecordFilter
