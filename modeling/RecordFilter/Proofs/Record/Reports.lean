import RecordFilter.Proofs.Filter.Order

/-!
Records that a filter cannot be tried on. Every condition is tried, also where the others have
already settled the verdict, and of what goes wrong only a missing field is reported, once.
-/

namespace RecordFilter

/-- What is reported when a match fails. -/
def MatchError.notices : MatchError → List Notice
  | missingField name => [.missingField name]
  | invalidRange _ => []

namespace Condition

variable {c : Condition} {r : Record} {v : Scalar} {b : Bool} {e : MatchError}

/-- A field that is there is not reported as missing. -/
theorem exists_literal_of_holdsFor (h : c.holdsFor v = .error e) :
    ∃ literal, e = .invalidRange literal := by
  unfold holdsFor at h
  cases hoperand : c.operand with
  | null =>
      rw [hoperand] at h
      cases hoperator : c.operator <;> rw [hoperator] at h <;> cases h
      exact ⟨"null", rfl⟩
  | text literal =>
      rw [hoperand] at h
      cases hoperator : c.operator with
      | between =>
          rw [hoperator] at h
          simp only [holdsForText] at h
          split at h <;> cases h
          exact ⟨literal, rfl⟩
      | _ =>
          rw [hoperator] at h
          cases h

theorem notices_of_holdsOn_ok (h : (c.holdsOn r).result = .ok b) : (c.holdsOn r).notices = [] := by
  unfold holdsOn at h ⊢
  split
  · next hfield =>
      rw [hfield] at h
      cases h
  · rfl

theorem notices_of_holdsOn_error (h : (c.holdsOn r).result = .error e) :
    (c.holdsOn r).notices = e.notices := by
  cases hfield : r.field? c.field with
  | none =>
      rw [holdsOn, hfield] at h ⊢
      cases h
      rfl
  | some v =>
      rw [result_holdsOn hfield] at h
      obtain ⟨literal, rfl⟩ := exists_literal_of_holdsFor h
      rw [holdsOn, hfield]
      rfl

end Condition

namespace Filter

variable {r : Record} {f : Filter} {b : Bool} {e : MatchError}

/-- Conditions that can be tried report nothing. -/
theorem flatMap_notices_eq_nil {cs : List Condition}
    (h : ∀ c ∈ cs, ∃ b, (c.holdsOn r).result = .ok b) :
    (cs.flatMap fun c => (c.holdsOn r).notices) = [] := by
  rw [List.flatMap_eq_nil_iff]
  intro c hc
  obtain ⟨b, hb⟩ := h c hc
  exact Condition.notices_of_holdsOn_ok hb

theorem notices_of_holdsOn_ok (h : (f.holdsOn r).result = .ok b) : (f.holdsOn r).notices = [] := by
  have hall := (follows_holdsOn r f).exists_ok_iff.mp ⟨b, h⟩
  rw [(follows_holdsOn r f).notices_of_forall hall, flatMap_notices_eq_nil hall]

theorem notices_of_holdsOn_error (h : (f.holdsOn r).result = .error e) :
    (f.holdsOn r).notices = e.notices := by
  have hfollows := follows_holdsOn r f
  obtain ⟨before, c, after, hsplit, hbefore, hc⟩ := hfollows.eq_error_iff.mp h
  rw [hsplit] at hfollows
  rw [hfollows.notices_of_first hbefore hc, flatMap_notices_eq_nil hbefore, List.nil_append,
    Condition.notices_of_holdsOn_error hc]

/-- A filter fails on a record exactly where one of its conditions does, whatever the others say and
however they are joined, and the first of these gives the error. A missing field is logged in one
line, and nothing else is. -/
theorem holdsOn_reports (r : Record) (f : Filter) :
    ((∃ e, (f.holdsOn r).result = .error e) ↔
      ∃ c ∈ f.conditions, ∃ e, (c.holdsOn r).result = .error e) ∧
    (∀ e, (f.holdsOn r).result = .error e ↔
      ∃ before c after, f.conditions = before ++ c :: after ∧
        (∀ d ∈ before, ∃ b, (d.holdsOn r).result = .ok b) ∧ (c.holdsOn r).result = .error e) ∧
    (∀ name, (f.holdsOn r).result = .error (.missingField name) →
      (f.holdsOn r).log = ["ERROR: record has no field " ++ Text.quoted name]) ∧
    ((∀ name, (f.holdsOn r).result ≠ .error (.missingField name)) → (f.holdsOn r).log = []) := by
  have hfollows := follows_holdsOn r f
  refine ⟨?_, fun e => hfollows.eq_error_iff, ?_, ?_⟩
  · constructor
    · rintro ⟨e, he⟩
      obtain ⟨before, c, after, hsplit, -, hc⟩ := hfollows.eq_error_iff.mp he
      exact ⟨c, by simp [hsplit], e, hc⟩
    · rintro ⟨c, hmem, e, hc⟩
      cases hresult : (f.holdsOn r).result with
      | error d => exact ⟨d, rfl⟩
      | ok b =>
          obtain ⟨held, hheld⟩ := hfollows.exists_ok_iff.mp ⟨b, hresult⟩ c hmem
          cases hheld.symm.trans hc
  · intro name h
    rw [Outcome.log, notices_of_holdsOn_error h]
    rfl
  · intro h
    rw [Outcome.log]
    cases hresult : (f.holdsOn r).result with
    | ok b =>
        rw [notices_of_holdsOn_ok hresult]
        rfl
    | error e =>
        rw [notices_of_holdsOn_error hresult]
        cases e with
        | missingField name => exact absurd hresult (h name)
        | invalidRange literal => rfl

/-- Joined by `or` to a condition that holds, inside a group whose verdict no longer matters. -/
theorem holdsOn_reports_settled :
    let first : Condition := ⟨"a", .equal, .text "1", .or⟩
    let missing : Condition := ⟨"zip", .equal, .text "1", .or⟩
    let unbounded : Condition := ⟨"a", .between, .text "1:", .and⟩
    let f : Filter := [.condition first, .group .or [.group .or [], .condition missing],
      .condition unbounded]
    let r := Record.ofList [("a", .int32 1)]
    let complete := Record.ofList [("a", .int32 1), ("zip", .null)]
    (f.holdsOn r).result = .error (.missingField "zip") ∧
      (f.holdsOn r).log = ["ERROR: record has no field " ++ Text.quoted "zip"] ∧
      (f.holdsOn complete).result = .error (.invalidRange "1:") ∧
      (f.holdsOn complete).log = [] := by
  intro first missing unbounded f r complete
  obtain ⟨-, herror, hlog, -⟩ := holdsOn_reports r f
  have hmissing : (f.holdsOn r).result = .error (.missingField "zip") :=
    (herror _).mpr ⟨[first], { missing with link := .or }, [unbounded], rfl,
      List.forall_mem_singleton.mpr ⟨true, rfl⟩, rfl⟩
  obtain ⟨-, herror', -, hsilent⟩ := holdsOn_reports complete f
  have hunbounded : (f.holdsOn complete).result = .error (.invalidRange "1:") :=
    (herror' _).mpr ⟨[first, { missing with link := .or }], unbounded, [], rfl,
      List.forall_mem_cons.mpr ⟨⟨true, rfl⟩, List.forall_mem_singleton.mpr ⟨false, rfl⟩⟩, rfl⟩
  refine ⟨hmissing, hlog "zip" hmissing, hunbounded, hsilent ?_⟩
  intro name hname
  cases hunbounded.symm.trans hname

end Filter

end RecordFilter
