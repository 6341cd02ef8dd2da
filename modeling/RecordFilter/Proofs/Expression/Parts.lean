import Mathlib
import RecordFilter.Expression.Form
import RecordFilter.Proofs.Expression.Scan
import RecordFilter.Proofs.Text.Run

/-!
Which texts the readers of a condition take, and how they divide them. Each reader takes the longest
text of its form, so that its form includes what may stand behind it.
-/

namespace RecordFilter.Expression

open Text (StartsOutside span_append span_eq_iff span_spec)

variable {s rest field more run : List Char} {p : Char → Bool} {c q : Char}

theorem isGap_iff : isGap c = true ↔ c = ' ' ∨ c = '\t' ∨ c = '\r' ∨ c = '\n' := by
  simp [isGap, or_assoc]

theorem isOperatorChar_iff :
    isOperatorChar c = true ↔ c = '=' ∨ c = '!' ∨ c = '<' ∨ c = '>' ∨ c = '~' := by
  simp [isOperatorChar, or_assoc]

theorem isQuote_iff : isQuote c = true ↔ c = '\'' ∨ c = '"' := by
  simp [isQuote]

theorem isBlank_of_isGap (h : isGap c = true) : Text.isBlank c = true := by
  rcases isGap_iff.mp h with rfl | rfl | rfl | rfl <;> rfl

theorem isBlank_of_isOperatorChar (h : isOperatorChar c = true) : Text.isBlank c = false := by
  rcases isOperatorChar_iff.mp h with rfl | rfl | rfl | rfl | rfl <;> rfl

theorem isGap_of_isOperatorChar (h : isOperatorChar c = true) : isGap c = false := by
  rcases isOperatorChar_iff.mp h with rfl | rfl | rfl | rfl | rfl <;> rfl

theorem isGap_of_isQuote (h : isQuote c = true) : isGap c = false := by
  rcases isQuote_iff.mp h with rfl | rfl <;> rfl

theorem isGap_of_startsName (h : startsName c = true) : isGap c = false := by
  cases hgap : isGap c with
  | false => rfl
  | true => rcases isGap_iff.mp hgap with rfl | rfl | rfl | rfl <;> cases h

theorem readRun_eq_some_iff :
    readRun p s = some (run, rest) ↔
      run ≠ [] ∧ (∀ c ∈ run, p c = true) ∧ StartsOutside p rest ∧ s = run ++ rest := by
  rw [← span_eq_iff, readRun]
  split
  · next hspan =>
      rw [hspan]
      constructor
      · rintro ⟨⟩
      · rintro ⟨hne, ⟨⟩⟩
        exact absurd rfl hne
  · next hne hspan =>
      rw [hspan, Option.some_inj]
      constructor
      · intro h
        cases h
        refine ⟨?_, rfl⟩
        intro hnil
        exact hne hnil
      · exact And.right

/-- What may follow the first character of a field: characters of names, and points that begin a
further name. -/
inductive IsFieldRest : List Char → Prop where
  | nil : IsFieldRest []
  | point (c : Char) (s : List Char) (hc : startsName c = true) (hs : IsFieldRest s) :
      IsFieldRest ('.' :: c :: s)
  | cons (c : Char) (s : List Char) (hc : continuesName c = true) (hs : IsFieldRest s) :
      IsFieldRest (c :: s)

/-- Names joined by points. -/
inductive IsField : List Char → Prop where
  | mk (c : Char) (s : List Char) (hc : startsName c = true) (hs : IsFieldRest s) :
      IsField (c :: s)

theorem isBlank_of_continuesName (h : continuesName c = true) : Text.isBlank c = false := by
  have hrange : 0x30 ≤ c.toNat ∧ c.toNat ≤ 0x7A := by
    simp only [continuesName, Char.isAlphanum, Char.isAlpha, Char.isUpper, Char.isLower,
      Char.isDigit, Bool.or_eq_true, Bool.and_eq_true, decide_eq_true_eq, beq_iff_eq, ge_iff_le,
      UInt32.le_iff_toNat_le] at h
    rcases h with ((h | h) | h) | rfl
    · simp at h
      omega
    · simp at h
      omega
    · simp at h
      omega
    · decide
  exact Text.isBlank_of_toNat hrange.1 hrange.2

theorem continuesName_of_startsName (h : startsName c = true) : continuesName c = true := by
  simp only [startsName, continuesName, Char.isAlphanum, Bool.or_eq_true] at h ⊢
  exact h.imp .inl id

theorem IsFieldRest.forall_mem (h : IsFieldRest s) :
    ∀ c ∈ s, continuesName c = true ∨ c = '.' := by
  induction h with
  | nil => simp
  | point c s hc _ ih =>
      rw [List.forall_mem_cons, List.forall_mem_cons]
      exact ⟨.inr rfl, .inl (continuesName_of_startsName hc), ih⟩
  | cons c s hc _ ih =>
      rw [List.forall_mem_cons]
      exact ⟨.inl hc, ih⟩

/-- A field has neither blanks nor delimiters in it. -/
theorem IsField.forall_mem (h : IsField s) :
    ∀ c ∈ s, Text.isBlank c = false ∧ isDelimiter c = false := by
  have hchar : ∀ c, continuesName c = true ∨ c = '.' →
      Text.isBlank c = false ∧ isDelimiter c = false := by
    rintro c (hc | rfl)
    · exact ⟨isBlank_of_continuesName hc, isDelimiter_of_imp hc (by decide)⟩
    · decide
  obtain ⟨c, s, hc, hs⟩ := h
  rw [List.forall_mem_cons]
  refine ⟨hchar c (.inl (continuesName_of_startsName hc)), ?_⟩
  intro d hd
  exact hchar d (hs.forall_mem d hd)

/-- What stands behind a field does not go on with it. -/
def EndsField : List Char → Prop
  | '.' :: c :: _ => startsName c = false
  | c :: _ => continuesName c = false
  | [] => True

theorem endsField_cons (hc : continuesName c = false) (hpoint : c ≠ '.') : EndsField (c :: s) := by
  rw [EndsField]
  · exact hc
  · rintro _ _ rfl
    exact absurd rfl hpoint

theorem endsField_of_isGap (hc : isGap c = true) : EndsField (c :: s) := by
  rcases isGap_iff.mp hc with rfl | rfl | rfl | rfl <;> exact endsField_cons rfl (by decide)

theorem endsField_of_isOperatorChar (hc : isOperatorChar c = true) : EndsField (c :: s) := by
  rcases isOperatorChar_iff.mp hc with rfl | rfl | rfl | rfl | rfl <;>
    exact endsField_cons rfl (by decide)

theorem readFieldRest_of_continuesName (hc : continuesName c = true) :
    readFieldRest (c :: s) = (c :: (readFieldRest s).1, (readFieldRest s).2) := by
  have hpoint : c ≠ '.' := by
    rintro rfl
    cases hc
  rw [readFieldRest]
  · rw [if_pos hc]
  · rintro _ _ rfl
    exact absurd rfl hpoint

theorem readFieldRest_of_ends (h : EndsField rest) : readFieldRest rest = ([], rest) := by
  unfold EndsField at h
  split at h
  · rw [readFieldRest, if_neg (by simp [h])]
  · next hpoint =>
      rw [readFieldRest, if_neg (by simp [h])]
      exact hpoint
  · rw [readFieldRest]

theorem readFieldRest_append (hmore : IsFieldRest more) (hrest : EndsField rest) :
    readFieldRest (more ++ rest) = (more, rest) := by
  induction hmore with
  | nil => exact readFieldRest_of_ends hrest
  | point c s hc _ ih =>
      rw [List.cons_append, List.cons_append, readFieldRest, if_pos hc, ih]
  | cons c s hc _ ih => rw [List.cons_append, readFieldRest_of_continuesName hc, ih]

theorem readFieldRest_sound (s : List Char) :
    IsFieldRest (readFieldRest s).1 ∧ EndsField (readFieldRest s).2 ∧
      s = (readFieldRest s).1 ++ (readFieldRest s).2 := by
  fun_induction readFieldRest s with
  | case1 c s hc more rest hread ih =>
      rw [hread] at ih
      obtain ⟨hmore, hrest, hs⟩ := ih
      exact ⟨.point c more hc hmore, hrest, by rw [hs]; rfl⟩
  | case2 c s hc => exact ⟨.nil, by simpa [EndsField] using hc, rfl⟩
  | case3 c s hpoint hc more rest hread ih =>
      rw [hread] at ih
      obtain ⟨hmore, hrest, hs⟩ := ih
      exact ⟨.cons c more hc hmore, hrest, by rw [hs]; rfl⟩
  | case4 c s hpoint hc =>
      refine ⟨.nil, ?_, rfl⟩
      rw [EndsField]
      · simpa using hc
      · exact hpoint
  | case5 => exact ⟨.nil, trivial, rfl⟩

theorem readField_eq_some_iff :
    readField s = some (field, rest) ↔ IsField field ∧ EndsField rest ∧ s = field ++ rest := by
  constructor
  · intro h
    cases s with
    | nil => cases h
    | cons c s =>
        rw [readField, Option.ite_none_right_eq_some] at h
        obtain ⟨hc, h⟩ := h
        cases h
        obtain ⟨hmore, hrest, hs⟩ := readFieldRest_sound s
        exact ⟨.mk c _ hc hmore, hrest, congrArg (c :: ·) hs⟩
  · rintro ⟨⟨c, more, hc, hmore⟩, hrest, rfl⟩
    rw [List.cons_append, readField, if_pos hc, readFieldRest_append hmore hrest]

theorem readQuoted_eq_some_iff {v : ValueText} :
    readQuoted q s = some (v, rest) ↔
      ∃ inner, v = .quoted q inner ∧ q ∉ inner ∧ s = q :: inner ++ q :: rest := by
  constructor
  · intro h
    cases s with
    | nil => cases h
    | cons c s =>
        rw [readQuoted, Option.ite_none_right_eq_some] at h
        obtain ⟨rfl, h⟩ := h
        split at h
        · cases h
        · next inner d more hspan =>
            cases h
            obtain ⟨hinner, hquote, rfl⟩ := span_eq_iff.mp hspan
            have hd : d = c := by simpa using hquote d rfl
            refine ⟨inner, rfl, ?_, by rw [hd]; rfl⟩
            intro hmem
            simpa using hinner c hmem
  · rintro ⟨inner, rfl, hinner, rfl⟩
    have hspan : (inner ++ q :: rest).span (· != q) = (inner, q :: rest) := by
      refine span_eq_iff.mpr ⟨?_, Text.startsOutside_cons (by simp), rfl⟩
      intro c hc
      simpa using fun hcq : c = q => hinner (hcq ▸ hc)
    rw [List.cons_append, readQuoted, if_pos rfl, hspan]

theorem readQuoted_eq_none_iff : readQuoted q s = none ↔ ∀ t, s = q :: t → q ∉ t := by
  constructor
  · rintro h t rfl hmem
    obtain ⟨inner, rest, rfl, hinner⟩ := List.eq_append_cons_of_mem hmem
    exact absurd (h.symm.trans (readQuoted_eq_some_iff.mpr ⟨inner, rfl, hinner, rfl⟩)) (by simp)
  · intro h
    cases hread : readQuoted q s with
    | none => rfl
    | some found =>
        obtain ⟨inner, _, _, hs⟩ := readQuoted_eq_some_iff.mp hread
        exact absurd (by simp) (h (inner ++ q :: found.2) hs)

theorem readBare_eq_some_iff {v : ValueText} :
    readBare s = some (v, rest) ↔
      ∃ text, v = .bare text ∧ text ≠ [] ∧ (∀ c ∈ text, isGap c = false) ∧
        StartsOutside (!isGap ·) rest ∧ s = text ++ rest := by
  simp only [readBare, Option.map_eq_some_iff, Prod.exists, readRun_eq_some_iff,
    Bool.not_eq_true']
  constructor
  · rintro ⟨text, _, ⟨hne, htext, hrest, hs⟩, ⟨⟩⟩
    exact ⟨text, rfl, hne, htext, hrest, hs⟩
  · rintro ⟨text, rfl, hne, htext, hrest, hs⟩
    exact ⟨text, rest, ⟨hne, htext, hrest, hs⟩, rfl⟩

namespace ValueText

/-- The value is as long as it can be where `rest` stands behind it. A bare value may begin with a
quote only where that quote is not closed. -/
def StandsBefore (rest : List Char) : ValueText → Prop
  | quoted q inner => isQuote q = true ∧ q ∉ inner
  | bare text =>
      text ≠ [] ∧ (∀ c ∈ text, isGap c = false) ∧ StartsOutside (!isGap ·) rest ∧
        ∀ q t, isQuote q = true → text ++ rest = q :: t → q ∉ t

end ValueText

theorem readValue_eq_some_iff {v : ValueText} :
    readValue s = some (v, rest) ↔ v.StandsBefore rest ∧ s = v.chars ++ rest := by
  simp only [readValue, Option.orElse_eq_or, Option.or_eq_some_iff, readQuoted_eq_some_iff,
    readQuoted_eq_none_iff, readBare_eq_some_iff]
  constructor
  · rintro (⟨inner, rfl, hinner, rfl⟩ | ⟨hsingle, ⟨inner, rfl, hinner, rfl⟩ |
      ⟨hdouble, text, rfl, hne, htext, hrest, rfl⟩⟩)
    · exact ⟨⟨rfl, hinner⟩, by simp [ValueText.chars]⟩
    · exact ⟨⟨rfl, hinner⟩, by simp [ValueText.chars]⟩
    · refine ⟨⟨hne, htext, hrest, ?_⟩, rfl⟩
      intro q t hq
      rcases isQuote_iff.mp hq with rfl | rfl
      · exact hsingle t
      · exact hdouble t
  · rintro ⟨hstands, rfl⟩
    cases v with
    | quoted q inner =>
        obtain ⟨hq, hinner⟩ := hstands
        have hchars : (ValueText.quoted q inner).chars ++ rest = q :: inner ++ q :: rest := by
          simp [ValueText.chars]
        rcases isQuote_iff.mp hq with rfl | rfl
        · exact .inl ⟨inner, rfl, hinner, hchars⟩
        · refine .inr ⟨?_, .inl ⟨inner, rfl, hinner, hchars⟩⟩
          rintro t ⟨⟩
    | bare text =>
        obtain ⟨hne, htext, hrest, hquote⟩ := hstands
        exact .inr ⟨fun t => hquote '\'' t rfl, .inr ⟨fun t => hquote '"' t rfl,
          text, rfl, hne, htext, hrest, rfl⟩⟩

theorem ValueText.StandsBefore.startsOutside {v : ValueText} (h : v.StandsBefore rest) :
    StartsOutside isGap (v.chars ++ more) := by
  cases v with
  | quoted q inner => exact Text.startsOutside_cons (isGap_of_isQuote h.1)
  | bare text =>
      obtain ⟨hne, htext, _⟩ := h
      obtain ⟨c, text, rfl⟩ := List.exists_cons_of_ne_nil hne
      exact Text.startsOutside_cons (htext c List.mem_cons_self)

namespace ConditionText

variable {t : ConditionText}

/-- The parts have their forms, and the operator does not go on behind itself. -/
structure WellFormed (t : ConditionText) : Prop where
  leading : ∀ c ∈ t.leading, isGap c = true
  field : IsField t.field
  afterField : ∀ c ∈ t.afterField, isGap c = true
  symbol_ne_nil : t.symbol ≠ []
  symbol : ∀ c ∈ t.symbol, isOperatorChar c = true
  symbol_longest : StartsOutside isOperatorChar (t.afterSymbol ++ (t.value.chars ++ t.trailing))
  afterSymbol : ∀ c ∈ t.afterSymbol, isGap c = true
  value : t.value.StandsBefore t.trailing
  trailing : ∀ c ∈ t.trailing, isGap c = true

theorem chars_eq (t : ConditionText) :
    t.chars = t.leading ++ (t.field ++ (t.afterField ++ (t.symbol ++ (t.afterSymbol ++
      (t.value.chars ++ t.trailing))))) := by
  simp [chars]

theorem read?_sound (h : read? s = some t) : t.WellFormed ∧ s = t.chars := by
  simp only [read?, Option.bind_eq_bind, Option.bind_eq_some_iff, Prod.exists, pure,
    Option.ite_none_right_eq_some] at h
  obtain ⟨field, atGap, hfield, symbol, afterSymbol, hsymbol, value, afterValue, hvalue, hend, ⟨⟩⟩ :=
    h
  obtain ⟨hleading, _, hs⟩ := span_spec isGap s
  obtain ⟨hfieldForm, _, hatField⟩ := readField_eq_some_iff.mp hfield
  obtain ⟨hafterField, _, hatGap⟩ := span_spec isGap atGap
  obtain ⟨hne, hsymbolForm, hlongest, hatSymbol⟩ := readRun_eq_some_iff.mp hsymbol
  obtain ⟨hafterSymbol, _, hafter⟩ := span_spec isGap afterSymbol
  obtain ⟨hvalueForm, hatValue⟩ := readValue_eq_some_iff.mp hvalue
  obtain ⟨htrailing, _, hafterValue⟩ := span_spec isGap afterValue
  rw [List.isEmpty_iff.mp hend, List.append_nil] at hafterValue
  rw [hafterValue] at hatValue hvalueForm
  rw [hatValue] at hafter
  rw [hafter] at hlongest hatSymbol
  rw [hatSymbol] at hatGap
  rw [hatGap] at hatField
  rw [hatField] at hs
  refine ⟨⟨hleading, hfieldForm, hafterField, hne, hsymbolForm, hlongest, hafterSymbol, hvalueForm,
    htrailing⟩, ?_⟩
  rw [chars_eq]
  exact hs

section

variable {leading afterField symbol afterSymbol atValue afterValue : List Char} {v : ValueText}

/-- Behind parts of the right forms and a value, what is left over has to be a gap. -/
theorem read?_of_readValue (hleading : ∀ c ∈ leading, isGap c = true) (hfield : IsField field)
    (hafterField : ∀ c ∈ afterField, isGap c = true) (hne : symbol ≠ [])
    (hsymbol : ∀ c ∈ symbol, isOperatorChar c = true)
    (hlongest : StartsOutside isOperatorChar (afterSymbol ++ atValue))
    (hafterSymbol : ∀ c ∈ afterSymbol, isGap c = true) (hatValue : StartsOutside isGap atValue)
    (hvalue : readValue atValue = some (v, afterValue)) :
    read? (leading ++ (field ++ (afterField ++ (symbol ++ (afterSymbol ++ atValue))))) =
      if (afterValue.span isGap).2.isEmpty then
        some ⟨leading, field, afterField, symbol, afterSymbol, v, (afterValue.span isGap).1⟩
      else none := by
  obtain ⟨c, symbolRest, rfl⟩ := List.exists_cons_of_ne_nil hne
  have hc := hsymbol c List.mem_cons_self
  let atSymbol := c :: symbolRest ++ (afterSymbol ++ atValue)
  have hfieldHead : StartsOutside isGap (field ++ (afterField ++ atSymbol)) := by
    obtain ⟨d, fieldRest, hd, _⟩ := hfield
    exact Text.startsOutside_cons (isGap_of_startsName hd)
  have hends : EndsField (afterField ++ atSymbol) := by
    cases afterField with
    | nil => exact endsField_of_isOperatorChar hc
    | cons d gaps => exact endsField_of_isGap (hafterField d List.mem_cons_self)
  have hsymbolHead : StartsOutside isGap atSymbol :=
    Text.startsOutside_cons (isGap_of_isOperatorChar hc)
  have hleadingSpan := span_append hleading hfieldHead
  have hfieldRead := readField_eq_some_iff.mpr ⟨hfield, hends, rfl⟩
  have hfieldSpan := span_append hafterField hsymbolHead
  have hsymbolRead : readSymbol atSymbol = some (c :: symbolRest, afterSymbol ++ atValue) :=
    readRun_eq_some_iff.mpr ⟨hne, hsymbol, hlongest, rfl⟩
  have hsymbolSpan : (afterSymbol ++ atValue).span isGap = (afterSymbol, atValue) :=
    span_append hafterSymbol hatValue
  change read? (leading ++ (field ++ (afterField ++ atSymbol))) = _
  simp only [read?, hleadingSpan, hfieldRead, hfieldSpan, hsymbolRead, hsymbolSpan, hvalue,
    Option.bind_eq_bind, Option.bind_some]
  rfl

end

theorem read?_chars (h : t.WellFormed) : read? t.chars = some t := by
  have hvalueRead := readValue_eq_some_iff.mpr ⟨h.value, rfl⟩
  have htrailingSpan : t.trailing.span isGap = (t.trailing, []) :=
    span_eq_iff.mpr ⟨h.trailing, Text.startsOutside_nil, (List.append_nil _).symm⟩
  rw [chars_eq, read?_of_readValue h.leading h.field h.afterField h.symbol_ne_nil h.symbol
    h.symbol_longest h.afterSymbol h.value.startsOutside hvalueRead, htrailingSpan]
  rfl

theorem read?_eq_some_iff : read? s = some t ↔ t.WellFormed ∧ s = t.chars := by
  constructor
  · exact read?_sound
  · rintro ⟨h, rfl⟩
    exact read?_chars h

/-- What stands before the value of a condition. -/
def beforeValue (t : ConditionText) : List Char :=
  t.leading ++ t.field ++ t.afterField ++ (t.symbol ++ t.afterSymbol)

theorem chars_eq_beforeValue_append (t : ConditionText) :
    t.chars = t.beforeValue ++ (t.value.chars ++ t.trailing) := by
  simp [chars, beforeValue]

theorem WellFormed.not_delimiter_beforeValue (h : t.WellFormed) :
    ∀ c ∈ t.beforeValue, isDelimiter c = false := by
  have hgaps : ∀ {s : List Char}, (∀ c ∈ s, isGap c = true) → ∀ c ∈ s, isDelimiter c = false := by
    intro s hs
    apply not_delimiter_of_forall_blank
    intro c hc
    exact isBlank_of_isGap (hs c hc)
  simp only [beforeValue, List.forall_mem_append]
  refine ⟨⟨⟨hgaps h.leading, ?_⟩, hgaps h.afterField⟩, ?_, hgaps h.afterSymbol⟩
  · intro c hc
    exact (h.field.forall_mem c hc).2
  · intro c hc
    exact isDelimiter_of_isOperatorChar (h.symbol c hc)

/-- A quotation may open where the value begins. -/
theorem WellFormed.opensQuotation_after_beforeValue (h : t.WellFormed) (k : Cursor) :
    opensQuotation (k.after t.beforeValue).last = true := by
  refine Cursor.opensQuotation_after (List.append_ne_nil_of_left_ne_nil h.symbol_ne_nil _) ?_
  rw [List.forall_mem_append]
  constructor
  · intro c hc
    exact opensQuotation_of_isOperatorChar (h.symbol c hc)
  · intro c hc
    exact opensQuotation_of_isBlank (isBlank_of_isGap (h.afterSymbol c hc))

/-- A condition does not begin with its operator. -/
theorem read?_eq_none_of_isOperatorChar (hc : isOperatorChar c = true) : read? (c :: s) = none := by
  have hspan : (c :: s).span isGap = ([], c :: s) :=
    span_append (a := []) (by simp) (Text.startsOutside_cons (isGap_of_isOperatorChar hc))
  have hfield : readField (c :: s) = none := by
    rcases isOperatorChar_iff.mp hc with rfl | rfl | rfl | rfl | rfl <;> rfl
  simp only [read?, hspan, hfield]
  rfl

end ConditionText

end RecordFilter.Expression
