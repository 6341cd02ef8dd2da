import RecordFilter.Proofs.Filter.Order

/-!
A filter that has a query can be tried on every record that answers for the fields of the schema:
the checks made for the query leave nothing that could fail later.
-/

namespace RecordFilter

namespace Outcome

variable {ε α β : Type}

/-- There is a result, and nothing is reported beside it. -/
def Succeeds (x : Outcome ε α) : Prop :=
  ∃ a, x = pure a

theorem Succeeds.bind {x : Outcome ε α} {f : α → Outcome ε β} (hx : x.Succeeds)
    (hf : ∀ a, (f a).Succeeds) : (x >>= f).Succeeds := by
  obtain ⟨a, rfl⟩ := hx
  rw [pure_bind]
  exact hf a

end Outcome

/-- The record has a value, which may be null, for every field of the schema. -/
def Record.Answers (r : Record) (s : Schema) : Prop :=
  ∀ field ∈ s.fields, ∃ v, r.field? field.name = some v

theorem Record.Answers.of_kind? {r : Record} {s : Schema} (h : r.Answers s) {name : String}
    {kind : Kind} (hkind : s.catalog.kind? name = some kind) : ∃ v, r.field? name = some v := by
  rw [Schema.kind?_catalog, Option.map_eq_some_iff] at hkind
  obtain ⟨field, hfound, -⟩ := hkind
  have hname := List.find?_some hfound
  rw [beq_iff_eq] at hname
  rw [← hname]
  apply h
  exact List.mem_reverse.mp (List.mem_of_find?_eq_some hfound)

namespace Condition

variable {v : Scalar} {o : Operator} {field literal : String} {kind : Kind} {q : Query}

theorem exists_holdsForNull (h : (queryForNull field o).result = .ok q) :
    ∃ b, holdsForNull v o = .ok b := by
  cases o with
  | equal => exact ⟨v.isNull, rfl⟩
  | notEqual => exact ⟨!v.isNull, rfl⟩
  | between => cases h
  | _ => exact ⟨false, rfl⟩

/-- The bounds of a range are the same ones on both paths. -/
theorem exists_holdsForText_between (h : (rangeQuery field kind literal).result = .ok q) :
    ∃ b, holdsForText v .between literal = .ok b := by
  unfold rangeQuery at h
  cases hbounds : rangeBounds? literal.toList with
  | none =>
      rw [hbounds] at h
      cases h
  | some bounds =>
      refine ⟨v.within bounds.1 bounds.2, ?_⟩
      simp only [holdsForText, hbounds]

theorem exists_holdsForText (h : (queryForText field kind literal o).result = .ok q) :
    ∃ b, holdsForText v o literal = .ok b := by
  cases o with
  | between => exact exists_holdsForText_between h
  | _ => exact ⟨_, rfl⟩

theorem succeeds_holdsOn_of_query {c : Condition} {s : Schema} {r : Record}
    (h : (c.query s.catalog).result = .ok q) (hr : r.Answers s) : (c.holdsOn r).Succeeds := by
  cases hkind : s.catalog.kind? c.field with
  | none =>
      rw [query, hkind] at h
      cases h
  | some kind =>
      obtain ⟨v, hv⟩ := hr.of_kind? hkind
      have hholds : ∃ b, c.holdsFor v = .ok b := by
        rw [query, hkind] at h
        unfold holdsFor
        cases hoperand : c.operand with
        | null =>
            rw [hoperand] at h
            exact exists_holdsForNull h
        | text literal =>
            rw [hoperand] at h
            exact exists_holdsForText h
      obtain ⟨b, hb⟩ := hholds
      refine ⟨b, ?_⟩
      simp only [holdsOn, hv, hb]
      rfl

end Condition

theorem Query.exists_query_of_ofClauses {catalog : Catalog} {f : Filter} {soFar found : Option Query}
    (h : (ofClauses catalog soFar f).result = .ok found) :
    ∀ c ∈ f.conditions, ∃ q, (c.query catalog).result = .ok q :=
  (follows_ofClauses catalog soFar f).exists_ok_iff.mp ⟨found, h⟩

namespace Filter

variable {r : Record} {f : Filter}

theorem succeeds_holdsFrom (h : ∀ c ∈ f.conditions, (c.holdsOn r).Succeeds)
    (soFar : Option Bool) : (holdsFrom r soFar f).Succeeds := by
  induction f using Filter.induction generalizing soFar with
  | nil => exact ⟨_, holdsFrom_nil r soFar⟩
  | condition c rest ih =>
      rw [conditions_condition, List.forall_mem_cons] at h
      rw [holdsFrom_condition]
      exact h.1.bind fun next => ih h.2 _
  | group l inner rest ihInner ih =>
      rw [conditions_group, List.forall_mem_append, forall_mem_relink_iff fun c => Iff.rfl] at h
      rw [holdsFrom_group]
      exact (ihInner h.1 none).bind fun next => ih h.2 _

theorem succeeds_selectFrom {ρ : Type} {view : ρ → Record} {records : List ρ}
    (h : ∀ x ∈ records, (f.holdsOn (view x)).Succeeds) : (selectFrom view f records).Succeeds := by
  induction records with
  | nil => exact ⟨[], rfl⟩
  | cons x records ih =>
      rw [List.forall_mem_cons] at h
      apply h.1.bind
      intro kept
      apply (ih h.2).bind
      intro rest
      exact ⟨_, rfl⟩

theorem succeeds_select {ρ : Type} {view : ρ → Record} {records : List ρ}
    (h : ∀ x ∈ records, (f.holdsOn (view x)).Succeeds) : (f.select view records).Succeeds := by
  unfold select
  split
  · exact ⟨records, rfl⟩
  · exact succeeds_selectFrom h

end Filter

namespace Query

variable {settings : Settings} {s : Schema} {tenant : Option String} {f : Filter} {q : Query}

/-- A filter that has a query, for whatever tenant, gives a verdict on every record that answers for
the fields of the schema, and selects among such records, without a notice. -/
theorem succeeds_of_ofFilter (h : (ofFilter settings s.catalog tenant f).result = .ok q) :
    (∀ r : Record, r.Answers s → (f.holdsOn r).Succeeds) ∧
      ∀ (ρ : Type) (view : ρ → Record) (records : List ρ), (∀ x ∈ records, (view x).Answers s) →
        (f.select view records).Succeeds := by
  obtain ⟨found, hfound, -⟩ := Outcome.result_bind_eq_ok_iff.mp h
  have hverdict : ∀ r : Record, r.Answers s → (f.holdsOn r).Succeeds := by
    intro r hr
    apply Filter.succeeds_holdsFrom
    intro c hc
    obtain ⟨leaf, hleaf⟩ := exists_query_of_ofClauses hfound c hc
    exact Condition.succeeds_holdsOn_of_query hleaf hr
  refine ⟨hverdict, ?_⟩
  intro ρ view records hrecords
  exact Filter.succeeds_select fun x hx => hverdict (view x) (hrecords x hx)

/-- Also with a bound that is no number, a group without clauses, and values of other kinds. -/
theorem succeeds_of_ofFilter_mixed :
    let s : Schema := ⟨"Session", [⟨"ip", .text⟩, ⟨"attempts", .text⟩, ⟨"attempts", .int32⟩]⟩
    let f : Filter :=
      [.condition ⟨"attempts", .between, .text "1:many", .or⟩,
        .group .and [.group .or [], .condition ⟨"ip", .notEqual, .null, .or⟩]]
    let r := Record.ofList [("attempts", .bool true), ("ip", .null)]
    (∃ q, (ofFilter {} s.catalog (some "acme") f).result = .ok q) ∧ r.Answers s ∧
      (f.holdsOn r).Succeeds ∧ (f.select id [r, r]).Succeeds := by
  intro s f r
  obtain ⟨q, hq⟩ : ∃ q, (ofFilter {} s.catalog (some "acme") f).result = .ok q := ⟨_, rfl⟩
  have hr : r.Answers s := by
    simp only [Record.Answers, s, List.forall_mem_cons]
    exact ⟨⟨_, rfl⟩, ⟨_, rfl⟩, ⟨_, rfl⟩, nofun⟩
  obtain ⟨hverdict, hselect⟩ := succeeds_of_ofFilter hq
  refine ⟨⟨q, hq⟩, hr, hverdict r hr, hselect Record id [r, r] ?_⟩
  simp only [List.forall_mem_cons]
  exact ⟨hr, hr, nofun⟩

end Query

end RecordFilter
