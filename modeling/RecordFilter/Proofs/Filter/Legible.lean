import RecordFilter.Expression.Reader
import RecordFilter.Filter.Written
import RecordFilter.Proofs.Expression.Parts
import RecordFilter.Proofs.Expression.Split

/-!
Conditions that are read back from what is written for them. Only a text with quotes of both kinds
can fail, since it is written bare; no text that has been read does.
-/

namespace RecordFilter

open Expression
open Text (Framed)

namespace Operand

/-- The value that is written for an operand. -/
def valueText : Operand → ValueText
  | .null => .bare "null".toList
  | .text s =>
      if s.toList.contains '\'' then
        if s.toList.contains '"' then .bare s.toList else .quoted '"' s.toList
      else .quoted '\'' s.toList

theorem toList_written (o : Operand) : o.written.toList = o.valueText.chars := by
  cases o with
  | null => rfl
  | text s =>
      rw [written, valueText]
      split
      · split
        · rfl
        · simp [ValueText.chars]
      · simp [ValueText.chars]

/-- The value written for the operand is read as one value, and for the operand it was written. -/
structure Legible (o : Operand) : Prop where
  stands : o.valueText.StandsBefore []
  read : ofValueText o.valueText = o
  passes : Cursor.Passes ⟨none, some ' ', 0⟩ o.valueText.chars
  last : ∃ s c, o.valueText.chars = s ++ [c] ∧ Text.isBlank c = false

theorem legible_null : Legible null where
  stands := by
    refine ⟨by decide, by simp [isGap], Text.startsOutside_nil, ?_⟩
    rintro q t hq ⟨⟩
    cases hq
  read := rfl
  passes := Cursor.passes_of_not_delimiter rfl (by
    simp [valueText, ValueText.chars, isDelimiter, isQuote])
  last := ⟨"nul".toList, 'l', rfl, rfl⟩

theorem legible_of_valueText_eq_quoted {s : String} {q : Char} (hq : isQuote q = true)
    (hs : q ∉ s.toList) (h : (text s).valueText = .quoted q s.toList) : Legible (text s) where
  stands := by
    rw [h]
    exact ⟨hq, hs⟩
  read := by
    rw [h, ofValueText, String.ofList_toList]
  passes := by
    rw [h]
    exact Cursor.passes_quotation rfl rfl hq hs
  last := by
    rw [h]
    refine ⟨q :: s.toList, q, rfl, ?_⟩
    rcases isQuote_iff.mp hq with rfl | rfl <;> rfl

/-- Text that lacks one kind of quote is written between quotes of that kind. -/
theorem legible_of_not_mem {s : String} {q : Char} (hq : isQuote q = true) (hs : q ∉ s.toList) :
    Legible (text s) := by
  by_cases hsingle : '\'' ∈ s.toList
  · obtain rfl : q = '"' := by
      rcases isQuote_iff.mp hq with rfl | rfl
      · exact absurd hsingle hs
      · rfl
    refine legible_of_valueText_eq_quoted hq hs ?_
    rw [valueText, if_pos (by simpa using hsingle), if_neg (by simpa using hs)]
  · refine legible_of_valueText_eq_quoted rfl hsingle ?_
    rw [valueText, if_neg (by simpa using hsingle)]

end Operand

namespace Condition

/-- The parts of what is written for a condition. -/
def parts (c : Condition) : ConditionText :=
  ⟨[], c.field.toList, [' '], c.operator.symbol.toList, [' '], c.operand.valueText, []⟩

theorem toList_written (c : Condition) : c.written.toList = c.parts.chars := by
  simp [written, parts, ConditionText.chars, Operand.toList_written]

/-- What is written for a condition behind its field and a gap. -/
def comparisonChars (c : Condition) : List Char :=
  c.operator.symbol.toList ++ ' ' :: c.operand.valueText.chars

theorem toList_written_eq_field_append (c : Condition) :
    c.written.toList = c.field.toList ++ ' ' :: c.comparisonChars := by
  simp [written, comparisonChars, Operand.toList_written]

theorem symbol_chars (o : Operator) :
    o.symbol.toList ≠ [] ∧ ∀ c ∈ o.symbol.toList, isOperatorChar c = true := by
  cases o <;> simp [Operator.symbol, isOperatorChar]

theorem exists_comparisonChars_eq (c : Condition) :
    ∃ d s, c.comparisonChars = d :: s ∧ isOperatorChar d = true := by
  obtain ⟨hne, hsymbol⟩ := symbol_chars c.operator
  obtain ⟨d, s, hd⟩ := List.exists_cons_of_ne_nil hne
  rw [comparisonChars, hd]
  exact ⟨d, _, rfl, hsymbol d (by simp [hd])⟩

/-- Without its field a condition is none. -/
theorem ofChars_comparisonChars (c : Condition) :
    ofChars c.comparisonChars = .error (.invalidCondition (String.ofList c.comparisonChars)) := by
  obtain ⟨d, s, hchars, hd⟩ := c.exists_comparisonChars_eq
  rw [ofChars, hchars, ConditionText.read?_eq_none_of_isOperatorChar hd]

theorem not_delimiter_symbol (o : Operator) :
    ∀ d ∈ o.symbol.toList ++ [' '], isDelimiter d = false := by
  refine List.forall_mem_append.mpr ⟨?_, List.forall_mem_singleton.mpr rfl⟩
  intro d hd
  exact isDelimiter_of_isOperatorChar ((symbol_chars o).2 d hd)

section

variable (c : Condition)

theorem framed_comparisonChars_of
    (hlast : ∃ s d, c.operand.valueText.chars = s ++ [d] ∧ Text.isBlank d = false) :
    Framed c.comparisonChars := by
  constructor
  · obtain ⟨d, s, hchars, hd⟩ := c.exists_comparisonChars_eq
    exact ⟨d, s, hchars, isBlank_of_isOperatorChar hd⟩
  · obtain ⟨s, d, hchars, hd⟩ := hlast
    refine ⟨c.operator.symbol.toList ++ ' ' :: s, d, ?_, hd⟩
    rw [comparisonChars, hchars]
    simp

/-- A condition begins with its field and ends with its operand. -/
theorem framed_written_of (hfield : IsField c.field.toList)
    (hlast : ∃ s d, c.operand.valueText.chars = s ++ [d] ∧ Text.isBlank d = false) :
    Framed c.written.toList := by
  rw [toList_written_eq_field_append]
  constructor
  · cases hchars : c.field.toList with
    | nil =>
        rw [hchars] at hfield
        cases hfield
    | cons d s =>
        rw [hchars] at hfield
        exact ⟨d, _, rfl, (hfield.forall_mem d List.mem_cons_self).1⟩
  · obtain ⟨s, d, hchars, hd⟩ := (c.framed_comparisonChars_of hlast).last
    exact ⟨c.field.toList ++ ' ' :: s, d, by simp [hchars], hd⟩

end

structure Legible (c : Condition) : Prop where
  field : IsField c.field.toList
  operand : c.operand.Legible

namespace Legible

variable {c : Condition} {k : Cursor}

theorem wellFormed_parts (h : c.Legible) : c.parts.WellFormed where
  leading := by simp [parts]
  field := h.field
  afterField := by simp [parts, isGap]
  symbol_ne_nil := (symbol_chars c.operator).1
  symbol := (symbol_chars c.operator).2
  symbol_longest := Text.startsOutside_cons rfl
  afterSymbol := by simp [parts, isGap]
  value := h.operand.stands
  trailing := by simp [parts]

theorem ofChars_written (h : c.Legible) :
    ofChars c.written.toList = .ok { c with link := .or } := by
  have hoperator : Operator.ofSymbol? (String.ofList c.parts.symbol) = some c.operator := by
    rw [parts, String.ofList_toList, Operator.ofSymbol?_symbol]
  rw [toList_written, ofChars, ConditionText.read?_chars h.wellFormed_parts]
  simp only [ofParts, hoperator]
  rw [parts, String.ofList_toList, h.operand.read]

theorem framed_comparisonChars (h : c.Legible) : Framed c.comparisonChars :=
  c.framed_comparisonChars_of h.operand.last

theorem framed_written (h : c.Legible) : Framed c.written.toList :=
  c.framed_written_of h.field h.operand.last

theorem passes_comparisonChars (h : c.Legible) (hk : k.Outermost) :
    k.Passes c.comparisonChars := by
  have hbefore := Cursor.passes_of_not_delimiter hk.quote (not_delimiter_symbol c.operator)
  have hplace := hbefore.outermost_after hk
  have hlast : (k.after (c.operator.symbol.toList ++ [' '])).last = some ' ' := by
    rw [Cursor.after_append]
    rfl
  have hvalue := Cursor.passes_congr hplace.quote.symm hplace.depth.symm
    (congrArg opensQuotation hlast.symm) h.operand.passes
  have hpasses := hbefore.append hvalue
  rw [List.append_assoc] at hpasses
  exact hpasses

theorem passes_written (h : c.Legible) (hk : k.Outermost) : k.Passes c.written.toList := by
  have hfield : ∀ d ∈ c.field.toList ++ [' '], isDelimiter d = false := by
    refine List.forall_mem_append.mpr ⟨?_, List.forall_mem_singleton.mpr rfl⟩
    intro d hd
    exact (h.field.forall_mem d hd).2
  have hbefore := Cursor.passes_of_not_delimiter hk.quote hfield
  have hpasses := hbefore.append (h.passes_comparisonChars (hbefore.outermost_after hk))
  rw [List.append_assoc] at hpasses
  rw [toList_written_eq_field_append]
  exact hpasses

end Legible

section

variable {t : ConditionText}

theorem trailing_eq_nil (ht : t.WellFormed) (hframed : Framed t.chars) : t.trailing = [] := by
  by_contra hne
  rw [ConditionText.chars] at hframed
  obtain ⟨s, c, hlast, hc⟩ := hframed.last_of_append hne
  have hgap := ht.trailing c (by simp [hlast])
  rw [isBlank_of_isGap hgap] at hc
  cases hc

/-- Of what stands before a value, the scan keeps only that a quotation may open behind it. -/
theorem passes_value (ht : t.WellFormed) (hs : StandsAlone t.chars) :
    Cursor.Passes ⟨none, some ' ', 0⟩ t.value.chars := by
  obtain ⟨hframed, k, hk, hpasses⟩ := hs
  rw [t.chars_eq_beforeValue_append, trailing_eq_nil ht hframed, List.append_nil] at hpasses
  have hbefore := Cursor.passes_of_not_delimiter hk.quote ht.not_delimiter_beforeValue
  have hplace := hbefore.outermost_after hk
  exact Cursor.passes_congr hplace.quote hplace.depth (ht.opensQuotation_after_beforeValue k)
    hpasses.of_append_right

/-- A bare value that has been read is read again behind an operator and a gap. -/
theorem legible_of_bare {o : Operand} {word : List Char} (ht : t.WellFormed)
    (hs : StandsAlone t.chars) (hvalue : t.value = .bare word) (hwritten : o.valueText = .bare word)
    (hread : Operand.ofValueText (.bare word) = o) : o.Legible := by
  have htrailing := trailing_eq_nil ht hs.framed
  have hstands := ht.value
  rw [htrailing, hvalue] at hstands
  have hne : word ≠ [] := hstands.1
  have hframed := hs.framed
  rw [t.chars_eq_beforeValue_append, htrailing, List.append_nil, hvalue] at hframed
  have hpasses := passes_value ht hs
  rw [hvalue] at hpasses
  have hlast := hframed.last_of_append hne
  rw [← hwritten] at hstands hlast hpasses hread
  exact ⟨hstands, hread, hpasses, hlast⟩

theorem legible_ofValueText (ht : t.WellFormed) (hs : StandsAlone t.chars) :
    (Operand.ofValueText t.value).Legible := by
  cases hvalue : t.value with
  | quoted q inner =>
      have hstands := ht.value
      rw [hvalue] at hstands
      exact Operand.legible_of_not_mem hstands.1 (by simpa using hstands.2)
  | bare word =>
      rw [Operand.ofValueText]
      split
      · exact Operand.legible_null
      · next hnull =>
          by_cases hquotes : '\'' ∈ word ∧ '"' ∈ word
          · refine legible_of_bare ht hs hvalue ?_ ?_
            · simp [Operand.valueText, hquotes.1, hquotes.2]
            · rw [Operand.ofValueText, if_neg hnull]
          · rcases not_and_or.mp hquotes with hsingle | hdouble
            · exact Operand.legible_of_not_mem rfl (by simpa using hsingle)
            · exact Operand.legible_of_not_mem rfl (by simpa using hdouble)

end

/-- What is written for a condition that has been read is read as that condition. -/
theorem legible_of_ofChars {text : List Char} {c : Condition} (hs : StandsAlone text)
    (h : ofChars text = .ok c) : c.Legible := by
  rw [ofChars] at h
  cases hread : ConditionText.read? text with
  | none =>
      rw [hread] at h
      cases h
  | some t =>
      obtain ⟨ht, rfl⟩ := ConditionText.read?_eq_some_iff.mp hread
      simp only [hread, ofParts] at h
      split at h
      · cases h
        exact ⟨by simpa using ht.field, legible_ofValueText ht hs⟩
      · cases h

end Condition

end RecordFilter
