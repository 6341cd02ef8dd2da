import RecordFilter.Proofs.Filter.Order
import RecordFilter.Proofs.Scalar.Bounds

/-!
Filters that have no query. Whether a condition has one is settled by the schema and the condition
alone, and the error of a filter is that of its first condition, in the order of the text, that has
none.
-/

namespace RecordFilter

namespace Condition

variable {s : Schema} {c : Condition} {e : QueryError} {kind : Kind} {field literal : String}

/-- The schema has a field of the name. -/
def Declared (s : Schema) (c : Condition) : Prop :=
  ∃ field ∈ s.fields, field.name = c.field

/-- The condition is about a field of the schema, asks of null only whether a value is null or not,
and has both bounds where it is a range. -/
structure Fits (s : Schema) (c : Condition) : Prop where
  declared : c.Declared s
  null : c.operand = .null → c.operator = .equal ∨ c.operator = .notEqual
  range : c.operator = .between → ∃ literal, c.operand = .text literal ∧ HasBounds literal.toList

/-- What a condition is refused for. An unknown field comes before the use of null, and both before
the bounds. -/
inductive Offends (s : Schema) (c : Condition) : QueryError → Prop where
  | unknownField (declared : ¬c.Declared s) : Offends s c (.unknownField c.field s.recordType)
  | nullOperand (declared : c.Declared s) (null : c.operand = .null)
      (operator : ¬(c.operator = .equal ∨ c.operator = .notEqual)) :
      Offends s c (.nullOperand c.field c.operator)
  | invalidRange {literal : String} (declared : c.Declared s) (text : c.operand = .text literal)
      (between : c.operator = .between) (bounds : ¬HasBounds literal.toList) :
      Offends s c (.invalidRange literal)

theorem exists_kind?_iff : (∃ kind, s.catalog.kind? c.field = some kind) ↔ c.Declared s := by
  rw [← Option.isSome_iff_exists, Schema.kind?_catalog, Option.isSome_map, List.find?_isSome]
  simp only [List.mem_reverse, beq_iff_eq]
  rfl

theorem fits_or_offends (s : Schema) (c : Condition) : c.Fits s ∨ ∃ e, c.Offends s e := by
  by_cases hdeclared : c.Declared s
  · cases hoperand : c.operand with
    | null =>
        by_cases hoperator : c.operator = .equal ∨ c.operator = .notEqual
        · refine .inl ⟨hdeclared, fun _ => hoperator, ?_⟩
          intro hbetween
          rw [hbetween] at hoperator
          cases hoperator <;> contradiction
        · exact .inr ⟨_, .nullOperand hdeclared hoperand hoperator⟩
    | text literal =>
        by_cases hbetween : c.operator = .between ∧ ¬HasBounds literal.toList
        · exact .inr ⟨_, .invalidRange hdeclared hoperand hbetween.1 hbetween.2⟩
        · rw [not_and_not_right] at hbetween
          refine .inl ⟨hdeclared, ?_, fun h => ⟨literal, hoperand, hbetween h⟩⟩
          intro hnull
          cases hoperand.symm.trans hnull
  · exact .inr ⟨_, .unknownField hdeclared⟩

/-- A literal always has a value, if only as text. -/
theorem exists_valueOf (kind : Kind) (field literal : String) :
    ∃ v, (kind.valueOf field literal).result = .ok v := by
  unfold Kind.valueOf
  split <;> exact ⟨_, rfl⟩

theorem exists_comparisonQuery (comparison : Comparison) :
    ∃ q, (comparisonQuery field kind comparison literal).result = .ok q := by
  obtain ⟨v, hv⟩ := exists_valueOf kind field literal
  exact ⟨_, Outcome.result_bind_eq_ok_iff.mpr ⟨v, hv, rfl⟩⟩

theorem exists_rangeQuery (h : HasBounds literal.toList) :
    ∃ q, (rangeQuery field kind literal).result = .ok q := by
  obtain ⟨⟨least, greatest⟩, hbounds⟩ := exists_rangeBounds?_iff.mpr h
  obtain ⟨low, hlow⟩ := exists_valueOf kind field (String.ofList least)
  obtain ⟨high, hhigh⟩ := exists_valueOf kind field (String.ofList greatest)
  rw [rangeQuery, hbounds]
  refine ⟨.between field low high, Outcome.result_bind_eq_ok_iff.mpr ⟨low, hlow, ?_⟩⟩
  exact Outcome.result_bind_eq_ok_iff.mpr ⟨high, hhigh, rfl⟩

theorem rangeQuery_of_not_hasBounds (h : ¬HasBounds literal.toList) :
    rangeQuery field kind literal = .fail (.invalidRange literal) := by
  have hbounds : rangeBounds? literal.toList = none := by
    rw [Option.eq_none_iff_forall_ne_some]
    intro bounds hbounds
    exact h (exists_rangeBounds?_iff.mp ⟨bounds, hbounds⟩)
  rw [rangeQuery, hbounds]

theorem queryForNull_of_ne {o : Operator} (hequal : o ≠ .equal) (hnotEqual : o ≠ .notEqual) :
    queryForNull field o = .fail (.nullOperand field o) := by
  cases o with
  | equal => exact absurd rfl hequal
  | notEqual => exact absurd rfl hnotEqual
  | _ => rfl

theorem exists_query_of_fits (h : c.Fits s) : ∃ q, (c.query s.catalog).result = .ok q := by
  obtain ⟨kind, hkind⟩ := exists_kind?_iff.mpr h.declared
  rw [query, hkind]
  cases hoperand : c.operand with
  | null =>
      rcases h.null hoperand with hoperator | hoperator <;> rw [hoperator]
      · exact ⟨.isNull c.field, rfl⟩
      · exact ⟨.isNotNull c.field, rfl⟩
  | text literal =>
      cases hoperator : c.operator with
      | between =>
          obtain ⟨bounded, htext, hbounds⟩ := h.range hoperator
          cases hoperand.symm.trans htext
          exact exists_rangeQuery hbounds
      | like => exact ⟨.contains c.field literal false, rfl⟩
      | notLike => exact ⟨.contains c.field literal true, rfl⟩
      | _ => exact exists_comparisonQuery _

theorem query_of_offends (h : c.Offends s e) : c.query s.catalog = .fail e := by
  cases h with
  | unknownField hdeclared =>
      have hkind : s.catalog.kind? c.field = none := by
        rw [Option.eq_none_iff_forall_ne_some]
        intro kind hkind
        exact hdeclared (exists_kind?_iff.mp ⟨kind, hkind⟩)
      rw [query, hkind]
      rfl
  | nullOperand hdeclared hnull hoperator =>
      obtain ⟨kind, hkind⟩ := exists_kind?_iff.mpr hdeclared
      rw [query, hkind, hnull]
      rw [not_or] at hoperator
      exact queryForNull_of_ne hoperator.1 hoperator.2
  | invalidRange hdeclared htext hbetween hbounds =>
      obtain ⟨kind, hkind⟩ := exists_kind?_iff.mpr hdeclared
      rw [query, hkind, htext, hbetween]
      exact rangeQuery_of_not_hasBounds hbounds

theorem exists_query_iff_fits : (∃ q, (c.query s.catalog).result = .ok q) ↔ c.Fits s := by
  constructor
  · rintro ⟨q, hq⟩
    rcases fits_or_offends s c with hfits | ⟨e, he⟩
    · exact hfits
    · rw [query_of_offends he] at hq
      cases hq
  · exact exists_query_of_fits

theorem query_eq_error_iff_offends : (c.query s.catalog).result = .error e ↔ c.Offends s e := by
  constructor
  · intro h
    rcases fits_or_offends s c with hfits | ⟨d, hd⟩
    · obtain ⟨q, hq⟩ := exists_query_of_fits hfits
      cases hq.symm.trans h
    · rw [query_of_offends hd] at h
      cases h
      exact hd
  · intro h
    rw [query_of_offends h]
    rfl

/-- The condition without regard to how it is joined. -/
def unlinked (c : Condition) : Condition :=
  { c with link := .or }

end Condition

namespace Query

/-- Filters with the same conditions in the same order fail and report alike. -/
theorem course_ofFilter_congr {catalog : Catalog} {f g : Filter}
    (h : g.conditions.map Condition.unlinked = f.conditions.map Condition.unlinked)
    (settings settings' : Settings) (tenant tenant' : Option String) :
    (ofFilter settings' catalog tenant' g).course = (ofFilter settings catalog tenant f).course := by
  have hcheck : ∀ f : Filter, (forM f.conditions fun c => (Condition.query catalog c).course) =
      forM (f.conditions.map Condition.unlinked) fun c => (c.query catalog).course := by
    intro f
    rw [List.forM_map]
    rfl
  rw [follows_ofFilter, follows_ofFilter, hcheck g, hcheck f, h]

/-- A filter has a query exactly where each of its conditions fits the schema, and otherwise the
error of the first that does not. Only the conditions in their order count, however they are joined
and grouped, and for whatever tenant. -/
theorem ofFilter_refuses (settings : Settings) (s : Schema) (tenant : Option String) (f : Filter) :
    ((∃ q, (ofFilter settings s.catalog tenant f).result = .ok q) ↔
      ∀ c ∈ f.conditions, c.Fits s) ∧
    (∀ e, (ofFilter settings s.catalog tenant f).result = .error e ↔
      ∃ before c after, f.conditions = before ++ c :: after ∧ (∀ d ∈ before, d.Fits s) ∧
        c.Offends s e) ∧
    ∀ (settings' : Settings) (tenant' : Option String) (g : Filter),
      g.conditions.map Condition.unlinked = f.conditions.map Condition.unlinked →
      ∀ e, (ofFilter settings' s.catalog tenant' g).result = .error e ↔
        (ofFilter settings s.catalog tenant f).result = .error e := by
  have hfollows := follows_ofFilter settings s.catalog tenant f
  refine ⟨?_, ?_, ?_⟩
  · rw [hfollows.exists_ok_iff]
    simp only [Condition.exists_query_iff_fits]
  · intro e
    rw [hfollows.eq_error_iff]
    simp only [Condition.exists_query_iff_fits, Condition.query_eq_error_iff_offends]
  · intro settings' tenant' g hconditions
    exact (Outcome.course_eq (course_ofFilter_congr hconditions _ _ _ _)).2

/-- A range with two colons, then null for an operator of text, in a group of its own, and last a
field that the schema has not. -/
theorem ofFilter_refuses_grouped :
    let s : Schema := ⟨"Session", [⟨"ip", .text⟩, ⟨"attempts", .int32⟩]⟩
    let first : Condition := ⟨"attempts", .between, .text " 1 : 2:x", .or⟩
    let second : Condition := ⟨"ip", .like, .null, .or⟩
    let third : Condition := ⟨"password", .between, .null, .and⟩
    let f : Filter := [.group .or [], .condition first, .group .or [.condition second],
      .condition third]
    let g : Filter := [.group .or [.condition first, .condition second, .condition third]]
    first.Fits s ∧ second.Offends s (.nullOperand "ip" .like) ∧
      (∃ q, (ofFilter {} s.catalog none [.condition first]).result = .ok q) ∧
      (ofFilter {} s.catalog (some "acme") f).result = .error (.nullOperand "ip" .like) ∧
      (ofFilter {} s.catalog none g).result = .error (.nullOperand "ip" .like) := by
  intro s first second third f g
  have hfirst : first.Fits s := by
    refine ⟨⟨⟨"attempts", .int32⟩, by decide, rfl⟩, nofun, fun _ => ⟨" 1 : 2:x", rfl, ?_⟩⟩
    exact ⟨" 1 ".toList, " 2:x".toList, rfl, by decide, ⟨'1', by decide, by decide⟩,
      ⟨'2', by decide, by decide⟩⟩
  have hsecond : second.Offends s (.nullOperand "ip" .like) :=
    .nullOperand ⟨⟨"ip", .text⟩, by decide, rfl⟩ rfl (by decide)
  obtain ⟨-, herror, hsame⟩ := ofFilter_refuses {} s (some "acme") f
  have hf : (ofFilter {} s.catalog (some "acme") f).result = .error (.nullOperand "ip" .like) :=
    (herror _).mpr ⟨[first], second, [third], rfl, List.forall_mem_singleton.mpr hfirst, hsecond⟩
  refine ⟨hfirst, hsecond, ?_, hf, (hsame {} none g rfl _).mpr hf⟩
  exact (ofFilter_refuses {} s none [.condition first]).1.mpr (List.forall_mem_singleton.mpr hfirst)

end Query

end RecordFilter
