import RecordFilter.Proofs.Filter.Order
import RecordFilter.Proofs.Query.Agreement
import RecordFilter.Proofs.Scalar.Native

/-!
What a query says of a record, by the values of its fields alone, and that this is what a condition
says of it: a condition reads the text of a field, its query compares the field with a value.
-/

namespace RecordFilter

/-- Whether a value stands to a constant as the comparison asks. -/
def Comparison.holds (comparison : Comparison) (v constant : Scalar) : Bool :=
  match comparison with
  | equal => v.same constant
  | notEqual => !v.same constant
  | lessThan => v.order? constant == some .lt
  | lessThanOrEqual => (v.order? constant).any Ordering.isLE
  | greaterThan => v.order? constant == some .gt
  | greaterThanOrEqual => (v.order? constant).any Ordering.isGE

/-- The value of a field, where a field that is not there counts as null. -/
def Record.value (r : Record) (field : String) : Scalar :=
  (r.field? field).getD .null

namespace Query

/-- Whether the query asks for the record. -/
def holdsOn (r : Record) : Query → Bool
  | all => true
  | compare field comparison constant => comparison.holds (r.value field) constant
  | contains field part negated =>
      if negated then !(r.value field).holds part else (r.value field).holds part
  | between field least greatest =>
      Comparison.greaterThanOrEqual.holds (r.value field) least &&
        Comparison.lessThanOrEqual.holds (r.value field) greatest
  | isNull field => (r.value field).isNull
  | isNotNull field => !(r.value field).isNull
  | and left right => holdsOn r left && holdsOn r right
  | or left right => holdsOn r left || holdsOn r right

end Query

namespace Condition

/-- The conditions that speak of a field of some kind in the kind's own terms: tests for null,
equality with a value of the kind unless it is a binary number, the order of whole numbers, and
containment in a text. -/
def Typed (kind : Kind) : Operator → Operand → Prop
  | .equal, .null => True
  | .notEqual, .null => True
  | _, .null => False
  | .equal, .text literal => kind ∈ [.text, .int32, .int64, .bool] ∧ (kind.convert? literal).isSome
  | .notEqual, .text literal =>
      kind ∈ [.text, .int32, .int64, .bool] ∧ (kind.convert? literal).isSome
  | .like, .text _ => kind = .text
  | .notLike, .text _ => kind = .text
  | .between, .text _ => False
  | _, .text literal => kind ∈ [.int32, .int64] ∧ (kind.convert? literal).isSome

variable {catalog : Catalog} {r : Record} {field literal : String} {kind : Kind} {v w : Scalar}

theorem result_comparisonQuery (hw : kind.convert? literal = some w) (comparison : Comparison) :
    (comparisonQuery field kind comparison literal).result =
      .ok (.compare field comparison w) := by
  have hvalue : kind.valueOf field literal = pure w := by
    simp only [Kind.valueOf, Kind.convert, hw]
  rw [comparisonQuery, hvalue, pure_bind]
  rfl

theorem exists_same (hv : v = .null ∨ v.kind? = some kind)
    (h : kind ∈ [.text, .int32, .int64, .bool] ∧ (kind.convert? literal).isSome) :
    ∃ w, kind.convert? literal = some w ∧ v.matchesLiteral literal.toList = v.same w := by
  obtain ⟨w, hw⟩ := Option.isSome_iff_exists.mp h.2
  refine ⟨w, hw, Scalar.matchesLiteral_eq_same ?_ hv hw⟩
  constructor <;> rintro rfl <;> simp at h

theorem exists_order (hv : v = .null ∨ v.kind? = some kind)
    (h : kind ∈ [.int32, .int64] ∧ (kind.convert? literal).isSome) :
    ∃ w, kind.convert? literal = some w ∧ v.compareTo? literal.toList = v.order? w := by
  obtain ⟨w, hw⟩ := Option.isSome_iff_exists.mp h.2
  exact ⟨w, hw, Scalar.compareTo?_eq_order? (by simpa using h.1) hv hw⟩

/-- The two comparisons that allow for equality. -/
theorem holdsForText_order (h : v.compareTo? literal.toList = v.order? w) :
    holdsForText v .lessThanOrEqual literal = .ok (Comparison.lessThanOrEqual.holds v w) ∧
      holdsForText v .greaterThanOrEqual literal =
        .ok (Comparison.greaterThanOrEqual.holds v w) := by
  simp only [holdsForText, Comparison.holds, h]
  constructor
  · rcases v.order? w with _ | _ | _ | _ <;> rfl
  · rcases v.order? w with _ | _ | _ | _ <;> rfl

/-- A condition with a literal and its query say the same of a value of the kind. -/
theorem exists_queryForText {o : Operator} (hvalue : r.value field = v)
    (hv : v = .null ∨ v.kind? = some kind) (htyped : Typed kind o (.text literal)) :
    ∃ q, (queryForText field kind literal o).result = .ok q ∧
      holdsForText v o literal = .ok (q.holdsOn r) := by
  subst hvalue
  cases o with
  | equal =>
      obtain ⟨w, hw, hsame⟩ := exists_same hv htyped
      refine ⟨_, result_comparisonQuery hw .equal, ?_⟩
      rw [holdsForText, hsame, Query.holdsOn, Comparison.holds]
  | notEqual =>
      obtain ⟨w, hw, hsame⟩ := exists_same hv htyped
      refine ⟨_, result_comparisonQuery hw .notEqual, ?_⟩
      rw [holdsForText, hsame, Query.holdsOn, Comparison.holds]
  | lessThan =>
      obtain ⟨w, hw, horder⟩ := exists_order hv htyped
      refine ⟨_, result_comparisonQuery hw .lessThan, ?_⟩
      rw [holdsForText, horder, Query.holdsOn, Comparison.holds]
  | lessThanOrEqual =>
      obtain ⟨w, hw, horder⟩ := exists_order hv htyped
      exact ⟨_, result_comparisonQuery hw .lessThanOrEqual, (holdsForText_order horder).1⟩
  | greaterThan =>
      obtain ⟨w, hw, horder⟩ := exists_order hv htyped
      refine ⟨_, result_comparisonQuery hw .greaterThan, ?_⟩
      rw [holdsForText, horder, Query.holdsOn, Comparison.holds]
  | greaterThanOrEqual =>
      obtain ⟨w, hw, horder⟩ := exists_order hv htyped
      exact ⟨_, result_comparisonQuery hw .greaterThanOrEqual, (holdsForText_order horder).2⟩
  | like =>
      cases htyped
      refine ⟨.contains field literal false, rfl, ?_⟩
      rw [holdsForText, Scalar.contains_eq_holds hv]
      rfl
  | notLike =>
      cases htyped
      refine ⟨.contains field literal true, rfl, ?_⟩
      rw [holdsForText, Scalar.contains_eq_holds hv]
      rfl
  | between => exact htyped.elim

theorem exists_queryForNull {o : Operator} (hvalue : r.value field = v)
    (htyped : Typed kind o .null) :
    ∃ q, (queryForNull field o).result = .ok q ∧ holdsForNull v o = .ok (q.holdsOn r) := by
  subst hvalue
  cases o
  case equal => exact ⟨.isNull field, rfl, rfl⟩
  case notEqual => exact ⟨.isNotNull field, rfl, rfl⟩
  all_goals exact htyped.elim

/-- The query of a condition in the terms of the kind, and that it says of a record what the
condition says. -/
theorem exists_query_of_typed {c : Condition} (hkind : catalog.kind? c.field = some kind)
    (hfield : r.field? c.field = some v) (hv : v = .null ∨ v.kind? = some kind)
    (htyped : Typed kind c.operator c.operand) :
    ∃ q, (c.query catalog).result = .ok q ∧ (c.holdsOn r).result = .ok (q.holdsOn r) := by
  have hvalue : r.value c.field = v := by
    rw [Record.value, hfield, Option.getD_some]
  have hquery : ∃ q, (c.query catalog).result = .ok q ∧ c.holdsFor v = .ok (q.holdsOn r) := by
    rw [query, hkind, holdsFor]
    cases hoperand : c.operand with
    | null => exact exists_queryForNull hvalue (hoperand ▸ htyped)
    | text literal => exact exists_queryForText hvalue hv (hoperand ▸ htyped)
  obtain ⟨q, hq, hholds⟩ := hquery
  refine ⟨q, hq, ?_⟩
  rw [holdsOn, hfield]
  exact hholds

end Condition

namespace Query

theorem result_ofFilter_condition {settings : Settings} {catalog : Catalog} {c : Condition}
    {q : Query} (h : (c.query catalog).result = .ok q) :
    (ofFilter settings catalog none [.condition c]).result = .ok q := by
  have hclauses : (ofClauses catalog none [.condition c]).result = .ok (some q) := by
    rw [ofClauses_condition, Outcome.result_bind_eq_ok_iff]
    exact ⟨q, h, by rw [ofClauses_nil]; rfl⟩
  rw [result_ofFilter_none, hclauses]
  rfl

/-- On a field that is null or of its declared kind, a condition in the terms of the kind has a
query, and the query holds by the value of the field alone exactly where the condition holds. -/
theorem holdsOn_ofFilter_condition (settings : Settings) (catalog : Catalog) (r : Record)
    (c : Condition) (kind : Kind) (v : Scalar) (hkind : catalog.kind? c.field = some kind)
    (hfield : r.field? c.field = some v) (hv : v = .null ∨ v.kind? = some kind)
    (htyped : Condition.Typed kind c.operator c.operand) :
    ∃ q, (ofFilter settings catalog none [.condition c]).result = .ok q ∧
      (c.holdsOn r).result = .ok (q.holdsOn r) := by
  obtain ⟨q, hq, hholds⟩ := Condition.exists_query_of_typed hkind hfield hv htyped
  exact ⟨q, result_ofFilter_condition hq, hholds⟩

theorem holdsOn_ofFilter_condition_padded :
    let c : Condition := ⟨"attempts", .lessThanOrEqual, .text " +0007 ", .or⟩
    let catalog := (Schema.mk "Session" [⟨"attempts", .int32⟩]).catalog
    let r := Record.ofList [("attempts", .int32 (-2147483648))]
    ∃ q, (ofFilter {} catalog none [.condition c]).result = .ok q ∧
      (c.holdsOn r).result = .ok true ∧ q.holdsOn r = true := by
  intro c catalog r
  obtain ⟨q, hq, hholds⟩ := holdsOn_ofFilter_condition {} catalog r c .int32
    (.int32 (-2147483648)) rfl rfl (.inr rfl) ⟨by decide, by decide⟩
  have hverdict : (c.holdsOn r).result = .ok true := by
    cbv
  exact ⟨q, hq, hverdict, Except.ok.inj (hholds.symm.trans hverdict)⟩

variable {catalog : Catalog} {r : Record} {f : Filter}

theorem holdsOn_eq_holdsUnder (q : Query) :
    q.holdsOn r = q.holdsUnder fun leaf => leaf.holdsOn r := by
  induction q with
  | and left right ihLeft ihRight => rw [holdsOn, ihLeft, ihRight, holdsUnder]
  | or left right ihLeft ihRight => rw [holdsOn, ihLeft, ihRight, holdsUnder]
  | _ => rfl

/-- What holds of one condition goes for a filter whose conditions are all in the terms of their
fields' kinds. -/
theorem holdsOn_ofFilter (settings : Settings) (hgroups : f.NoEmptyGroup)
    (htyped : ∀ c ∈ f.conditions, ∃ kind v, catalog.kind? c.field = some kind ∧
      r.field? c.field = some v ∧ (v = .null ∨ v.kind? = some kind) ∧
      Condition.Typed kind c.operator c.operand) :
    ∃ q, (ofFilter settings catalog none f).result = .ok q ∧
      (f.holdsOn r).result = .ok (q.holdsOn r) := by
  have hagree : ∀ c ∈ f.conditions, ∃ q, (c.query catalog).result = .ok q ∧
      (c.holdsOn r).result = .ok (q.holdsOn r) := by
    intro c hc
    obtain ⟨kind, v, hkind, hfield, hv, hc⟩ := htyped c hc
    exact Condition.exists_query_of_typed hkind hfield hv hc
  have hquery : ∃ found, (ofClauses catalog none f).result = .ok found :=
    (follows_ofClauses catalog none f).exists_ok_iff.mpr fun c hc =>
      (hagree c hc).imp fun _ h => h.1
  have hverdict : ∃ b, (Filter.holdsFrom r none f).result = .ok b :=
    (Filter.follows_holdsFrom r none f).exists_ok_iff.mpr fun c hc =>
      (hagree c hc).elim fun _ h => ⟨_, h.2⟩
  obtain ⟨found, hfound⟩ := hquery
  obtain ⟨b, hb⟩ := hverdict
  have hvalue : (found.map (holdsUnder fun leaf => leaf.holdsOn r)).getD true = b := by
    refine holdsUnder_ofClauses (by simp) hgroups ?_ hfound hb
    intro c hc leaf hleaf
    obtain ⟨q, hq, hholds⟩ := hagree c hc
    cases hq.symm.trans hleaf
    exact hholds
  refine ⟨found.getD all, by rw [result_ofFilter_none, hfound]; rfl, ?_⟩
  rw [Filter.holdsOn, hb, ← hvalue, holdsOn_eq_holdsUnder]
  cases found <;> rfl

end Query

end RecordFilter
