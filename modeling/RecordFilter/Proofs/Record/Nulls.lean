import RecordFilter.Proofs.Scalar.Bounds
import RecordFilter.Record.Matching

/-!
Null on either side of a condition. Of null can only be asked whether a value is null or not; a value
that is null meets no literal, so that only the operators that deny something hold for it.
-/

namespace RecordFilter

/-- The first operator says of a literal that the second one does not hold. -/
inductive Operator.Denies : Operator → Operator → Prop where
  | notEqual : Denies .notEqual .equal
  | notLike : Denies .notLike .like

theorem Scalar.isNull_iff {v : Scalar} : v.isNull = true ↔ v = .null := by
  cases v <;> simp [isNull]

namespace Condition

variable {r : Record} {c : Condition} {v : Scalar} {o p : Operator} {literal : String} {b : Bool}

/-- Where a condition holds or fails for the value of its field, nothing is reported. -/
theorem holdsOn_eq_pure (hfield : r.field? c.field = some v) (h : c.holdsFor v = .ok b) :
    c.holdsOn r = pure b := by
  rw [holdsOn, hfield]
  exact congrArg Outcome.ofExcept h

theorem exists_holdsForNull_eq (v : Scalar) (ho : o ≠ .between) :
    ∃ b, holdsForNull v o = .ok b ∧
      (b = true ↔ o = .equal ∧ v = .null ∨ o = .notEqual ∧ v ≠ .null) := by
  cases o with
  | equal => exact ⟨v.isNull, rfl, by simp [Scalar.isNull_iff]⟩
  | notEqual => exact ⟨!v.isNull, rfl, by simp [← Scalar.isNull_iff]⟩
  | between => exact absurd rfl ho
  | _ => exact ⟨false, rfl, by simp⟩

/-- The bounds of a range are looked at before the value, so that they have to be there also for a
value that is null. -/
theorem exists_holdsForText_null (hbounds : o = .between → HasBounds literal.toList) :
    ∃ b, holdsForText .null o literal = .ok b ∧ (b = true ↔ o = .notEqual ∨ o = .notLike) := by
  cases o with
  | between =>
      obtain ⟨bounds, hrange⟩ := exists_rangeBounds?_iff.mpr (hbounds rfl)
      refine ⟨false, ?_, by simp⟩
      simp only [holdsForText, hrange]
      rfl
  | notEqual => exact ⟨true, rfl, by simp⟩
  | notLike => exact ⟨true, rfl, by simp⟩
  | _ => exact ⟨false, rfl, by simp⟩

theorem exists_holdsForText_denies (v : Scalar) (literal : String) (h : o.Denies p) :
    ∃ b, holdsForText v p literal = .ok b ∧ holdsForText v o literal = .ok !b := by
  cases h with
  | notEqual => exact ⟨v.matchesLiteral literal.toList, rfl, rfl⟩
  | notLike => exact ⟨v.contains literal.toList, rfl, rfl⟩

/-- Asked for null, the operators of equality say whether the field is null, and all others but a
range fail to hold. Asked for a literal, a field that is null is different from it and does not
contain it, and nothing else holds of it. Whatever the field is, an operator that denies another one
holds of a literal exactly where that one does not. -/
theorem holdsOn_nulls (r : Record) (c : Condition) (v : Scalar)
    (hfield : r.field? c.field = some v) :
    (c.operand = .null → c.operator ≠ .between →
      ∃ b, c.holdsOn r = pure b ∧
        (b = true ↔ c.operator = .equal ∧ v = .null ∨ c.operator = .notEqual ∧ v ≠ .null)) ∧
    (∀ literal, c.operand = .text literal → v = .null →
      (c.operator = .between → HasBounds literal.toList) →
      ∃ b, c.holdsOn r = pure b ∧ (b = true ↔ c.operator = .notEqual ∨ c.operator = .notLike)) ∧
    ∀ literal p, c.operand = .text literal → c.operator.Denies p →
      ∃ b, { c with operator := p }.holdsOn r = pure b ∧ c.holdsOn r = pure !b := by
  refine ⟨?_, ?_, ?_⟩
  · intro hnull hoperator
    obtain ⟨b, hb, hiff⟩ := exists_holdsForNull_eq v hoperator
    refine ⟨b, holdsOn_eq_pure hfield ?_, hiff⟩
    rw [holdsFor, hnull]
    exact hb
  · rintro literal htext rfl hbounds
    obtain ⟨b, hb, hiff⟩ := exists_holdsForText_null hbounds
    refine ⟨b, holdsOn_eq_pure hfield ?_, hiff⟩
    rw [holdsFor, htext]
    exact hb
  · intro literal p htext hdenies
    obtain ⟨b, hdenied, hb⟩ := exists_holdsForText_denies v literal hdenies
    refine ⟨b, holdsOn_eq_pure hfield ?_, holdsOn_eq_pure hfield ?_⟩
    · rw [holdsFor, htext]
      exact hdenied
    · rw [holdsFor, htext]
      exact hb

/-- A field that is null, and one that is not: asked for null, in a range, and for a literal that is
spelled like null. -/
theorem holdsOn_nulls_both_sides :
    let r := Record.ofList [("a", .null), ("b", .text "null")]
    let asked : Condition := ⟨"b", .notEqual, .null, .or⟩
    let range : Condition := ⟨"a", .between, .text "1:5", .or⟩
    let spelled : Condition := ⟨"a", .notEqual, .text "null", .or⟩
    (r.field? "a" = some .null ∧ r.field? "b" = some (.text "null")) ∧
      asked.holdsOn r = pure true ∧ range.holdsOn r = pure false ∧
      ∃ b, { spelled with operator := .equal }.holdsOn r = pure b ∧ spelled.holdsOn r = pure !b := by
  intro r asked range spelled
  have hnull : r.field? "a" = some .null := by decide
  have htext : r.field? "b" = some (.text "null") := by decide
  have hbounds : HasBounds "1:5".toList :=
    ⟨['1'], ['5'], rfl, by decide, ⟨'1', by decide, by decide⟩, ⟨'5', by decide, by decide⟩⟩
  obtain ⟨hasked, -, -⟩ := holdsOn_nulls r asked _ htext
  obtain ⟨-, hrange, -⟩ := holdsOn_nulls r range _ hnull
  obtain ⟨-, -, hspelled⟩ := holdsOn_nulls r spelled _ hnull
  obtain ⟨b, hb, hiff⟩ := hasked rfl (by decide)
  obtain ⟨b', hb', hiff'⟩ := hrange "1:5" rfl rfl fun _ => hbounds
  refine ⟨⟨hnull, htext⟩, ?_, ?_, hspelled "null" .equal rfl .notEqual⟩
  · rw [hb, hiff.mpr (.inr ⟨rfl, by decide⟩)]
  · rw [hb', Bool.eq_false_iff.mpr (mt hiff'.mp (by decide))]

/-- Asked for null, a range is refused as a text without bounds, whether the field is null or not. -/
theorem holdsOn_between_null_refused :
    let r := Record.ofList [("a", .int32 1), ("b", .null)]
    let c : Condition := ⟨"a", .between, .null, .or⟩
    r.field? "a" = some (.int32 1) ∧ (c.holdsOn r).result = .error (.invalidRange "null") ∧
      ({ c with field := "b" }.holdsOn r).result = .error (.invalidRange "null") := by
  intro r c
  exact ⟨by decide, rfl, rfl⟩

end Condition

end RecordFilter
