import RecordFilter.Query.OfFilter

/-!
What the clauses of a filter come to as a query: a clause never asks for every record, so that no
clause after it is absorbed, and only a filter without conditions asks for nothing.
-/

namespace RecordFilter

/-- A query that asks for something of one field. -/
def Query.IsLeaf : Query → Prop
  | all => False
  | and _ _ => False
  | or _ _ => False
  | _ => True

theorem Query.IsLeaf.ne_all {q : Query} (h : q.IsLeaf) : q ≠ all := by
  rintro rfl
  exact h

namespace Condition

theorem isLeaf_of_comparisonQuery {field literal : String} {kind : Kind} {comparison : Comparison}
    {q : Query} (h : (comparisonQuery field kind comparison literal).result = .ok q) :
    q.IsLeaf := by
  obtain ⟨value, -, hq⟩ := Outcome.result_bind_eq_ok_iff.mp h
  cases hq
  trivial

theorem isLeaf_of_rangeQuery {field literal : String} {kind : Kind} {q : Query}
    (h : (rangeQuery field kind literal).result = .ok q) : q.IsLeaf := by
  unfold rangeQuery at h
  split at h
  · cases h
  · obtain ⟨low, -, hlow⟩ := Outcome.result_bind_eq_ok_iff.mp h
    obtain ⟨high, -, hq⟩ := Outcome.result_bind_eq_ok_iff.mp hlow
    cases hq
    trivial

theorem isLeaf_of_query {catalog : Catalog} {c : Condition} {q : Query}
    (h : (c.query catalog).result = .ok q) : q.IsLeaf := by
  unfold query at h
  split at h
  · cases h
  · split at h
    · cases ho : c.operator <;> rw [ho] at h <;> cases h <;> trivial
    · cases ho : c.operator <;> rw [ho] at h <;> simp only [queryForText] at h
      case like => cases h; trivial
      case notLike => cases h; trivial
      case between => exact isLeaf_of_rangeQuery h
      all_goals exact isLeaf_of_comparisonQuery h

end Condition

namespace Query

/-- Two queries under a connective, whatever they ask for. -/
def compound : Connective → Query → Query → Query
  | .and => and
  | .or => or

theorem join_eq_compound {l : Connective} {p : Query} (hp : p ≠ all) (q : Query) :
    p.join l q = compound l p q := by
  cases l with
  | and => exact both_of_ne_all hp q
  | or => exact either_of_ne_all hp q

theorem join_ne_all {l : Connective} {p q : Query} (hp : p ≠ all) : p.join l q ≠ all := by
  rw [join_eq_compound hp]
  cases l <;> exact Query.noConfusion

theorem joinNext_ne_all {soFar : Option Query} {l : Connective} {q : Query}
    (hsoFar : ∀ p, soFar = some p → p ≠ all) (hq : q ≠ all) : joinNext soFar l q ≠ all := by
  cases soFar with
  | none => exact hq
  | some p => exact join_ne_all (hsoFar p rfl)

theorem joinGroup_ne_all {soFar found : Option Query} {l : Connective}
    (hsoFar : ∀ p, soFar = some p → p ≠ all) (hfound : ∀ p, found = some p → p ≠ all) :
    ∀ p, joinGroup soFar l found = some p → p ≠ all := by
  cases found with
  | none => exact hsoFar
  | some q =>
      rintro p ⟨⟩
      exact joinNext_ne_all hsoFar (hfound q rfl)

/-- The query so far never asks for every record. -/
theorem ne_all_of_ofClauses {catalog : Catalog} {f : Filter} {soFar found : Option Query}
    (hsoFar : ∀ p, soFar = some p → p ≠ all) (h : (ofClauses catalog soFar f).result = .ok found) :
    ∀ p, found = some p → p ≠ all := by
  induction f using Filter.induction generalizing soFar found with
  | nil =>
      rw [ofClauses_nil] at h
      cases h
      exact hsoFar
  | condition c rest ih =>
      rw [ofClauses_condition, Outcome.result_bind_eq_ok_iff] at h
      obtain ⟨q, hq, hrest⟩ := h
      refine ih ?_ hrest
      rintro p ⟨⟩
      exact joinNext_ne_all hsoFar (Condition.isLeaf_of_query hq).ne_all
  | group l inner rest ihInner ih =>
      rw [ofClauses_group, Outcome.result_bind_eq_ok_iff] at h
      obtain ⟨q, hq, hrest⟩ := h
      exact ih (joinGroup_ne_all hsoFar (ihInner (by simp) hq)) hrest

theorem joinGroup_eq_none_iff {soFar found : Option Query} {l : Connective} :
    joinGroup soFar l found = none ↔ soFar = none ∧ found = none := by
  cases found <;> simp [joinGroup]

/-- Clauses ask for nothing exactly when there is no condition among them. -/
theorem ofClauses_eq_none_iff {catalog : Catalog} {f : Filter} {soFar found : Option Query}
    (h : (ofClauses catalog soFar f).result = .ok found) :
    found = none ↔ soFar = none ∧ f.conditions = [] := by
  induction f using Filter.induction generalizing soFar found with
  | nil =>
      rw [ofClauses_nil] at h
      cases h
      simp [Filter.conditions_nil]
  | condition c rest ih =>
      rw [ofClauses_condition, Outcome.result_bind_eq_ok_iff] at h
      obtain ⟨q, -, hrest⟩ := h
      rw [ih hrest, Filter.conditions_condition]
      simp
  | group l inner rest ihInner ih =>
      rw [ofClauses_group, Outcome.result_bind_eq_ok_iff] at h
      obtain ⟨q, hq, hrest⟩ := h
      rw [ih hrest, joinGroup_eq_none_iff, ihInner hq, Filter.conditions_group,
        List.append_eq_nil_iff, Filter.relink_eq_nil_iff]
      simp only [true_and, and_assoc]

/-- The query for a tenant is the one for all of them, narrowed; nothing else depends on the
tenant. -/
theorem result_ofFilter (settings : Settings) (catalog : Catalog) (tenant : Option String)
    (f : Filter) :
    (ofFilter settings catalog tenant f).result =
      (ofClauses catalog none f).result.map fun found =>
        restrictTo settings tenant (found.getD all) := by
  unfold ofFilter
  cases h : (ofClauses catalog none f).result with
  | error e => rw [Outcome.bind_error h]; rfl
  | ok found => rw [Outcome.bind_ok h]; rfl

theorem result_ofFilter_none (settings : Settings) (catalog : Catalog) (f : Filter) :
    (ofFilter settings catalog none f).result =
      (ofClauses catalog none f).result.map fun found => found.getD all :=
  result_ofFilter settings catalog none f

end Query

end RecordFilter
