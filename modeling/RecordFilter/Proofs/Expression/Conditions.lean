import RecordFilter.Expression.Reader
import RecordFilter.Proofs.Expression.Parts

/-!
The texts that are one condition, and what they say. Where a text divides into the parts of a
condition, its operator decides between a condition and a refusal, and every other text is refused
as a whole.
-/

namespace RecordFilter

open Expression

namespace Expression

/-- What a value says: the text between its quotes, null where the bare word is `null` in capital or
small letters, and any other bare word itself. -/
inductive ValueText.StandsFor : ValueText → Operand → Prop where
  | quoted (quote : Char) (inner : List Char) :
      StandsFor (.quoted quote inner) (.text (String.ofList inner))
  | null {word : List Char} (h : word.map Char.toLower = "null".toList) :
      StandsFor (.bare word) .null
  | bare {word : List Char} (h : word.map Char.toLower ≠ "null".toList) :
      StandsFor (.bare word) (.text (String.ofList word))

theorem ValueText.standsFor_ofValueText (v : ValueText) : v.StandsFor (.ofValueText v) := by
  cases v with
  | quoted q inner => exact .quoted q inner
  | bare word =>
      rw [Operand.ofValueText]
      split
      · next h => exact .null (beq_iff_eq.mp h)
      · next h => exact .bare fun hnull => h (beq_iff_eq.mpr hnull)

theorem ValueText.StandsFor.eq_ofValueText {v : ValueText} {o : Operand} (h : v.StandsFor o) :
    o = .ofValueText v := by
  cases h with
  | quoted q inner => rfl
  | null h => exact (if_pos (beq_iff_eq.mpr h)).symm
  | bare h => exact (if_neg fun hnull => h (beq_iff_eq.mp hnull)).symm

end Expression

namespace Operator

theorem ofSymbol?_eq_some_iff {symbol : String} {o : Operator} :
    ofSymbol? symbol = some o ↔ symbol = o.symbol := by
  constructor
  · intro h
    rw [ofSymbol?] at h
    exact (beq_iff_eq.mp (List.find?_some (p := fun o : Operator => o.symbol == symbol) h)).symm
  · rintro rfl
    exact ofSymbol?_symbol o

/-- The characters of an operator in a condition. -/
def spelling : Operator → List Char
  | equal => ['=']
  | notEqual => ['!', '=']
  | lessThan => ['<']
  | lessThanOrEqual => ['<', '=']
  | greaterThan => ['>']
  | greaterThanOrEqual => ['>', '=']
  | like => ['~']
  | notLike => ['!', '~']
  | between => ['<', '>']

theorem ofList_spelling (o : Operator) : String.ofList o.spelling = o.symbol := by
  cases o <;> rfl

theorem ofSymbol?_ofList_eq_some_iff {s : List Char} {o : Operator} :
    ofSymbol? (String.ofList s) = some o ↔ s = o.spelling := by
  rw [ofSymbol?_eq_some_iff, ← ofList_spelling, String.ofList_inj]

end Operator

namespace Condition

/-- The one result that is right for a text read as a condition. -/
inductive Reads (s : List Char) : Except ReadError Condition → Prop where
  | condition (t : ConditionText) (operator : Operator) (operand : Operand) (parts : t.WellFormed)
      (whole : s = t.chars) (known : t.symbol = operator.spelling)
      (value : t.value.StandsFor operand) :
      Reads s (.ok ⟨String.ofList t.field, operator, operand, .or⟩)
  | unsupported (t : ConditionText) (parts : t.WellFormed) (whole : s = t.chars)
      (unknown : ∀ operator : Operator, t.symbol ≠ operator.spelling) :
      Reads s (.error (.unsupportedOperator (String.ofList t.symbol)))
  | invalid (other : ∀ t : ConditionText, t.WellFormed → s ≠ t.chars) :
      Reads s (.error (.invalidCondition (String.ofList s)))

variable {s : List Char} {r : Except ReadError Condition} {t : ConditionText}

theorem reads_ofParts (ht : t.WellFormed) : Reads t.chars (ofParts t) := by
  rw [ofParts]
  split
  · next operator hoperator =>
      exact .condition t operator _ ht rfl (Operator.ofSymbol?_ofList_eq_some_iff.mp hoperator)
        t.value.standsFor_ofValueText
  · next hnone =>
      refine .unsupported t ht rfl ?_
      intro operator hoperator
      rw [← Operator.ofSymbol?_ofList_eq_some_iff, hnone] at hoperator
      cases hoperator

theorem reads_ofChars (s : List Char) : Reads s (ofChars s) := by
  rw [ofChars]
  split
  · next t hread =>
      obtain ⟨ht, rfl⟩ := ConditionText.read?_eq_some_iff.mp hread
      exact reads_ofParts ht
  · next hread =>
      refine .invalid ?_
      rintro t ht rfl
      rw [ConditionText.read?_chars ht] at hread
      cases hread

theorem Reads.eq_ofChars (h : Reads s r) : r = ofChars s := by
  cases h with
  | condition t operator operand ht hs hoperator hoperand =>
      rw [hs, ofChars, ConditionText.read?_chars ht, hoperand.eq_ofValueText]
      simp only [ofParts, Operator.ofSymbol?_ofList_eq_some_iff.mpr hoperator]
  | unsupported t ht hs hunknown =>
      have hnone : Operator.ofSymbol? (String.ofList t.symbol) = none := by
        rw [Option.eq_none_iff_forall_ne_some]
        intro operator hoperator
        exact hunknown operator (Operator.ofSymbol?_ofList_eq_some_iff.mp hoperator)
      rw [hs, ofChars, ConditionText.read?_chars ht]
      simp only [ofParts, hnone]
  | invalid hother =>
      have hread : ConditionText.read? s = none := by
        rw [Option.eq_none_iff_forall_ne_some]
        intro t hread
        obtain ⟨ht, hs⟩ := ConditionText.read?_eq_some_iff.mp hread
        exact hother t ht hs
      simp only [ofChars, hread]

/-- The texts of conditions are exactly the texts with a field, an operator and a value in them, and
gaps around and between these. -/
theorem ofText_eq_iff_reads (s : String) (r : Except ReadError Condition) :
    ofText s = r ↔ Reads s.toList r := by
  constructor
  · rintro rfl
    exact reads_ofChars s.toList
  · intro h
    exact h.eq_ofChars.symm

-- A quotation that is closed before the end of its word, and one that is not closed at all.
example : ofText "a.b != 'x'y" = .error (.invalidCondition "a.b != 'x'y") := by decide
example : ofText " a.b != 'xy\n" = .ok ⟨"a.b", .notEqual, .text "'xy", .or⟩ := by decide

end Condition

end RecordFilter
