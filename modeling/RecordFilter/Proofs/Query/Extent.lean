import RecordFilter.Proofs.Query.Tenant

/-!
The extent of a query that a filter has: it has no more tests than the filter has conditions, but
for that of a tenant, and its values are texts and what literals stand for in the fields of the
catalog.
-/

namespace RecordFilter

namespace Query

variable {P : Scalar → Prop} {m n : ℕ} {l : Connective} {p q : Query}

/-- How many tests a query is joined from. -/
def width : Query → ℕ
  | and left right => width left + width right
  | or left right => width left + width right
  | _ => 1

theorem width_pos (q : Query) : 0 < q.width := by
  induction q with
  | and left right ihLeft ihRight => exact Nat.add_pos_left ihLeft _
  | or left right ihLeft ihRight => exact Nat.add_pos_left ihLeft _
  | _ => exact Nat.one_pos

/-- At most so many tests, all of whose values have a property. -/
structure Within (P : Scalar → Prop) (n : ℕ) (q : Query) : Prop where
  width_le : q.width ≤ n
  values : ∀ v ∈ q.arguments, P v

theorem Within.mono (h : q.Within P m) (hle : m ≤ n) : q.Within P n :=
  ⟨h.width_le.trans hle, h.values⟩

theorem Within.join (hp : p.Within P m) (hq : q.Within P n) :
    (p.join l q).Within P (m + n) := by
  by_cases hall : p = all
  · subst hall
    cases l with
    | and => exact hq.mono (Nat.le_add_left n m)
    | or => exact hp.mono (Nat.le_add_right m n)
  · have hwidth : (compound l p q).width = p.width + q.width := by
      cases l <;> rfl
    have harguments : (compound l p q).arguments = p.arguments ++ q.arguments := by
      cases l <;> rfl
    rw [join_eq_compound hall]
    constructor
    · rw [hwidth]
      exact Nat.add_le_add hp.width_le hq.width_le
    · rw [harguments]
      exact List.forall_mem_append.mpr ⟨hp.values, hq.values⟩

theorem Within.joinNext {soFar : Option Query} (hsoFar : ∀ p ∈ soFar, p.Within P m)
    (hq : q.Within P n) : (joinNext soFar l q).Within P (m + n) := by
  cases soFar with
  | none => exact hq.mono (Nat.le_add_left n m)
  | some p => exact (hsoFar p rfl).join hq

theorem within_joinGroup {soFar found : Option Query} (hsoFar : ∀ p ∈ soFar, p.Within P m)
    (hfound : ∀ q ∈ found, q.Within P n) : ∀ q ∈ joinGroup soFar l found, q.Within P (m + n) := by
  cases found with
  | none =>
      intro q hq
      exact (hsoFar q hq).mono (Nat.le_add_right m n)
  | some q =>
      rintro r ⟨⟩
      exact Within.joinNext hsoFar (hfound q rfl)

end Query

/-- A property of all texts and of every value that a literal has in a field of the catalog. -/
structure Catalog.Ensures (catalog : Catalog) (P : Scalar → Prop) : Prop where
  text : ∀ s, P (.text s)
  convert : ∀ {name kind}, catalog.kind? name = some kind →
    ∀ {literal v}, kind.convert? literal = some v → P v

variable {P : Scalar → Prop} {catalog : Catalog}

theorem Catalog.Ensures.valueOf (hP : catalog.Ensures P) {name : String} {kind : Kind}
    (hkind : catalog.kind? name = some kind) {literal : String} {v : Scalar}
    (h : (kind.valueOf name literal).result = .ok v) : P v := by
  unfold Kind.valueOf Kind.convert at h
  cases hvalue : kind.convert? literal with
  | none =>
      rw [hvalue] at h
      cases h
      exact hP.text literal
  | some w =>
      rw [hvalue] at h
      cases h
      exact hP.convert hkind hvalue

namespace Condition

variable {c : Condition} {q : Query} {field literal : String} {kind : Kind} {o : Operator}

theorem values_of_queryForNull (h : (queryForNull field o).result = .ok q) :
    ∀ v ∈ q.arguments, P v := by
  have harguments : q.arguments = [] := by
    cases o <;> cases h <;> rfl
  rw [harguments]
  exact List.forall_mem_nil P

section

variable (hP : catalog.Ensures P) (hkind : catalog.kind? field = some kind)

include hP hkind

theorem values_of_comparisonQuery {comparison : Comparison}
    (h : (comparisonQuery field kind comparison literal).result = .ok q) :
    ∀ v ∈ q.arguments, P v := by
  obtain ⟨value, hvalue, hq⟩ := Outcome.result_bind_eq_ok_iff.mp h
  cases hq
  exact List.forall_mem_singleton.mpr (hP.valueOf hkind hvalue)

theorem values_of_rangeQuery (h : (rangeQuery field kind literal).result = .ok q) :
    ∀ v ∈ q.arguments, P v := by
  unfold rangeQuery at h
  split at h
  · cases h
  · obtain ⟨low, hlow, hrest⟩ := Outcome.result_bind_eq_ok_iff.mp h
    obtain ⟨high, hhigh, hq⟩ := Outcome.result_bind_eq_ok_iff.mp hrest
    cases hq
    refine List.forall_mem_cons.mpr ⟨hP.valueOf hkind hlow, ?_⟩
    exact List.forall_mem_singleton.mpr (hP.valueOf hkind hhigh)

theorem values_of_queryForText (h : (queryForText field kind literal o).result = .ok q) :
    ∀ v ∈ q.arguments, P v := by
  cases o <;> simp only [queryForText] at h
  case like =>
    cases h
    exact List.forall_mem_singleton.mpr (hP.text _)
  case notLike =>
    cases h
    exact List.forall_mem_singleton.mpr (hP.text _)
  case between => exact values_of_rangeQuery hP hkind h
  all_goals exact values_of_comparisonQuery hP hkind h

end

theorem values_of_query (hP : catalog.Ensures P) (h : (c.query catalog).result = .ok q) :
    ∀ v ∈ q.arguments, P v := by
  unfold query at h
  split at h
  · cases h
  · next kind hkind =>
      split at h
      · exact values_of_queryForNull h
      · exact values_of_queryForText hP hkind h

theorem within_of_query (hP : catalog.Ensures P) (h : (c.query catalog).result = .ok q) :
    q.Within P 1 := by
  refine ⟨?_, values_of_query hP h⟩
  have hleaf := isLeaf_of_query h
  cases q with
  | all => exact hleaf.elim
  | and left right => exact hleaf.elim
  | or left right => exact hleaf.elim
  | _ => exact le_rfl

end Condition

namespace Query

variable {settings : Settings} {tenant : Option String} {f : Filter} {q : Query}

theorem within_ofClauses (hP : catalog.Ensures P) {m : ℕ} {soFar found : Option Query}
    (hsoFar : ∀ p ∈ soFar, p.Within P m) (h : (ofClauses catalog soFar f).result = .ok found) :
    ∀ q ∈ found, q.Within P (m + f.size) := by
  induction f using Filter.induction generalizing m soFar found with
  | nil =>
      rw [ofClauses_nil] at h
      cases h
      exact hsoFar
  | condition c rest ih =>
      rw [ofClauses_condition, Outcome.result_bind_eq_ok_iff] at h
      obtain ⟨q, hq, hrest⟩ := h
      have hnext := Within.joinNext (l := c.link) hsoFar (Condition.within_of_query hP hq)
      rw [Filter.size, Filter.clauseSize, ← Nat.add_assoc]
      refine ih ?_ hrest
      rintro p ⟨⟩
      exact hnext
  | group l inner rest ihInner ih =>
      rw [ofClauses_group, Outcome.result_bind_eq_ok_iff] at h
      obtain ⟨found, hfound, hrest⟩ := h
      have hinner := ihInner (m := 0) (by simp) hfound
      rw [Nat.zero_add] at hinner
      rw [Filter.size, Filter.clauseSize, ← Nat.add_assoc]
      exact ih (within_joinGroup hsoFar hinner) hrest

theorem within_restrictTo (hP : catalog.Ensures P) {n : ℕ} {found : Option Query}
    (h : ∀ p ∈ found, p.Within P n) :
    (restrictTo settings tenant (found.getD all)).Within P (n + 1) := by
  have hquery : (found.getD all).Within P (n + 1) := by
    cases found with
    | none => exact ⟨Nat.le_add_left 1 n, List.forall_mem_nil P⟩
    | some p => exact (h p rfl).mono (Nat.le_succ n)
  cases tenant with
  | none => exact hquery
  | some t =>
      by_cases ht : t = ""
      · subst ht
        exact hquery
      · have htenant : (ofTenant settings t).Within P 1 :=
          ⟨le_rfl, List.forall_mem_singleton.mpr (hP.text t)⟩
        rw [restrictTo_some ht]
        cases found with
        | none => exact htenant.mono (Nat.le_add_left 1 n)
        | some p => exact (h p rfl).join (l := .and) htenant

/-- A tenant adds one test to those of the conditions. -/
theorem within_ofFilter (hP : catalog.Ensures P)
    (h : (ofFilter settings catalog tenant f).result = .ok q) : q.Within P (f.size + 1) := by
  obtain ⟨found, hfound, hq⟩ := Outcome.result_bind_eq_ok_iff.mp h
  cases hq
  have hwithin := within_ofClauses hP (m := 0) (by simp) hfound
  rw [Nat.zero_add] at hwithin
  exact within_restrictTo hP hwithin

end Query

end RecordFilter
