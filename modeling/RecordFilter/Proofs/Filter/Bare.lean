import RecordFilter.Proofs.Filter.Expressible
import RecordFilter.Proofs.Filter.Reading

/-!
Texts with quotes of both kinds. The syntax has no quotation for them, so that they are written bare,
and whether they come back depends on where their quotes stand: a quote at the front begins a
quotation, and so does one behind a character of operators.
-/

namespace RecordFilter

open Expression
open Text (Framed)

namespace Expression

/-- Neither blank nor of a meaning of its own outside quotations. -/
def isWordChar (c : Char) : Bool :=
  !Text.isBlank c && c != '&' && c != '|' && c != '(' && c != ')'

/-- Every quotation that begins in a word is closed in it. The flag says whether one may begin at the
front; further on one begins only behind a character of operators. -/
inductive Closes : Bool → List Char → Prop where
  | nil (opens : Bool) : Closes opens []
  | quotation {q : Char} {inner rest : List Char} (hq : isQuote q = true) (hinner : q ∉ inner)
      (hrest : Closes false rest) : Closes true (q :: inner ++ q :: rest)
  | char {opens : Bool} {c : Char} {rest : List Char} (hc : isQuote c = true → opens = false)
      (hrest : Closes (isOperatorChar c) rest) : Closes opens (c :: rest)

theorem isWordChar_iff {c : Char} :
    isWordChar c = true ↔
      Text.isBlank c = false ∧ c ≠ '&' ∧ c ≠ '|' ∧ c ≠ '(' ∧ c ≠ ')' := by
  simp [isWordChar, and_assoc]

theorem isGap_of_isWordChar {c : Char} (hc : isWordChar c = true) : isGap c = false := by
  rw [Bool.eq_false_iff]
  intro hgap
  cases (isBlank_of_isGap hgap).symm.trans (isWordChar_iff.mp hc).1

theorem framed_of_isWordChar {s : List Char} (hne : s ≠ [])
    (hs : ∀ c ∈ s, isWordChar c = true) : Framed s :=
  Text.framed_of_forall hne fun c hc => (isWordChar_iff.mp (hs c hc)).1

theorem opensQuotation_of_isWordChar {c : Char} (hc : isWordChar c = true) :
    opensQuotation (some c) = isOperatorChar c := by
  obtain ⟨hblank, hand, hor, hopening, -⟩ := isWordChar_iff.mp hc
  simp [opensQuotation, hblank, beq_false_of_ne hand, beq_false_of_ne hor,
    beq_false_of_ne hopening]

/-- A quote at the front of a word that closes its quotations begins one of them. -/
theorem Closes.exists_quotation {q : Char} {s : List Char} (h : Closes true (q :: s))
    (hq : isQuote q = true) :
    ∃ inner rest, s = inner ++ q :: rest ∧ q ∉ inner ∧ Closes false rest := by
  generalize hs : q :: s = t at h
  generalize hopens : true = opens at h
  cases h with
  | nil => cases hs
  | quotation hq' hinner hrest =>
      cases hs
      exact ⟨_, _, rfl, hinner, hrest⟩
  | char hc hrest =>
      cases hs
      cases hopens.trans (hc hq)

namespace Cursor

variable {k : Cursor} {c : Char} {s : List Char} {opens : Bool}

theorem mark_of_isWordChar (hc : isWordChar c = true) : k.mark c = .plain := by
  obtain ⟨-, hand, hor, hopening, hclosing⟩ := isWordChar_iff.mp hc
  exact mark_eq_plain hopening hclosing hand hor

theorem passes_cons_iff : k.Passes (c :: s) ↔ k.mark c = .plain ∧ (k.advance c).Passes s := by
  constructor
  · rintro ⟨⟨hmark, hplain⟩, hquote⟩
    exact ⟨hmark, hplain, hquote⟩
  · rintro ⟨hmark, hplain, hquote⟩
    exact ⟨⟨hmark, hplain⟩, hquote⟩

theorem plain_of_isWordChar (hs : ∀ c ∈ s, isWordChar c = true) : k.Plain s := by
  induction s generalizing k with
  | nil => trivial
  | cons c s ih =>
      rw [List.forall_mem_cons] at hs
      exact ⟨mark_of_isWordChar hs.1, ih hs.2⟩

theorem quote_advance_of_not_opening (hk : k.quote = none)
    (hc : isQuote c = true → opensQuotation k.last = false) : (k.advance c).quote = none := by
  rw [quote_advance_of_none hk]
  cases hquote : isQuote c with
  | false => rfl
  | true => rw [hc hquote]; rfl

/-- Behind a quotation no other one begins. -/
theorem opensQuotation_after_quotation {q : Char} (hq : isQuote q = true) (inner : List Char) :
    opensQuotation (k.after (q :: inner ++ [q])).last = false := by
  rw [last_after (by simp), List.getLast?_concat]
  rcases isQuote_iff.mp hq with rfl | rfl <;> rfl

theorem passes_of_closes (h : Closes opens s) (hs : ∀ c ∈ s, isWordChar c = true)
    (hk : k.quote = none) (hopens : opensQuotation k.last = opens) : k.Passes s := by
  induction h generalizing k with
  | nil => exact passes_nil hk
  | @quotation q inner rest hq hinner _ ih =>
      have hquotation := passes_quotation hk hopens hq hinner
      have hrest := (List.forall_mem_cons.mp (List.forall_mem_append.mp hs).2).2
      have hpasses := hquotation.append
        (ih hrest hquotation.quote (opensQuotation_after_quotation hq inner))
      rwa [List.append_assoc] at hpasses
  | char hc _ ih =>
      rw [List.forall_mem_cons] at hs
      refine passes_cons_iff.mpr ⟨mark_of_isWordChar hs.1, ih hs.2 ?_ ?_⟩
      · exact quote_advance_of_not_opening hk (hopens ▸ hc)
      · exact opensQuotation_of_isWordChar hs.1

theorem closes_of_passes (hs : ∀ c ∈ s, isWordChar c = true) (hk : k.quote = none)
    (h : k.Passes s) : Closes (opensQuotation k.last) s := by
  induction hlength : s.length using Nat.strong_induction_on generalizing s k with
  | _ n ih =>
      subst hlength
      cases s with
      | nil => exact .nil _
      | cons c s =>
          rw [List.forall_mem_cons] at hs
          by_cases hopening : isQuote c = true ∧ opensQuotation k.last = true
          · obtain ⟨hc, hopens⟩ := hopening
            have hquote : (k.advance c).quote = some c := by
              rw [quote_advance_of_none hk, hc, hopens]
              rfl
            -- No quotation is open behind the word, so that this one has been closed.
            have hmem : c ∈ s := by
              by_contra hnot
              cases (quote_after_of_quote hquote hnot).2.symm.trans h.quote
            obtain ⟨inner, rest, rfl, hinner⟩ := List.eq_append_cons_of_mem hmem
            have hquotation := passes_quotation hk hopens hc hinner
            have hsplit : c :: (inner ++ c :: rest) = c :: inner ++ [c] ++ rest := by simp
            rw [hsplit] at h
            rw [List.forall_mem_append, List.forall_mem_cons] at hs
            have hrest := ih rest.length (by simp; omega) hs.2.2.2 hquotation.quote
              h.of_append_right rfl
            rw [opensQuotation_after_quotation hc] at hrest
            rw [hopens]
            exact .quotation hc hinner hrest
          · have hnot : isQuote c = true → opensQuotation k.last = false := by
              intro hc
              exact Bool.eq_false_iff.mpr fun hopens => hopening ⟨hc, hopens⟩
            have hrest := ih s.length (Nat.lt_succ_self _) hs.2
              (quote_advance_of_not_opening hk hnot) (passes_cons_iff.mp h).2 rfl
            rw [advance, opensQuotation_of_isWordChar hs.1] at hrest
            exact .char hnot hrest

theorem passes_iff_closes (hs : ∀ c ∈ s, isWordChar c = true) (hk : k.quote = none) :
    k.Passes s ↔ Closes (opensQuotation k.last) s :=
  ⟨closes_of_passes hs hk, fun h => passes_of_closes h hs hk rfl⟩

end Cursor

/-- Whether a word closes its quotations is settled by where the scan stands behind it. -/
theorem closes_iff {s : List Char} (hs : ∀ c ∈ s, isWordChar c = true) :
    Closes true s ↔ (Cursor.after ⟨none, some ' ', 0⟩ s).quote = none := by
  refine (Cursor.passes_iff_closes (k := ⟨none, some ' ', 0⟩) hs rfl).symm.trans ?_
  exact ⟨Cursor.Passes.quote, fun hquote => ⟨Cursor.plain_of_isWordChar hs, hquote⟩⟩

end Expression

namespace Operand

variable {s : String}

theorem valueText_eq_bare (hsingle : '\'' ∈ s.toList) (hdouble : '"' ∈ s.toList) :
    valueText (text s) = .bare s.toList := by
  rw [valueText, if_pos (by simpa using hsingle), if_pos (by simpa using hdouble)]

theorem ofValueText_bare (hsingle : '\'' ∈ s.toList) : ofValueText (.bare s.toList) = text s := by
  have hnull : ¬Text.sameLetters s.toList "null".toList = true := by
    intro hletters
    rw [Text.sameLetters, beq_iff_eq] at hletters
    have hmem : '\''.toLower ∈ "null".toList.map Char.toLower :=
      hletters ▸ List.mem_map_of_mem hsingle
    exact absurd hmem (by decide)
  rw [ofValueText, if_neg hnull, String.ofList_toList]

/-- A word with quotes of both kinds is read back exactly where it closes its quotations and does not
begin with one. -/
theorem legible_text_iff (hsingle : '\'' ∈ s.toList) (hdouble : '"' ∈ s.toList)
    (hword : ∀ c ∈ s.toList, isWordChar c = true) :
    (text s).Legible ↔ Text.StartsOutside isQuote s.toList ∧ Closes true s.toList := by
  have hpasses : Cursor.Passes ⟨none, some ' ', 0⟩ s.toList ↔ Closes true s.toList :=
    Cursor.passes_iff_closes hword rfl
  have hne : s.toList ≠ [] := List.ne_nil_of_mem hsingle
  have hvalue := valueText_eq_bare hsingle hdouble
  constructor
  · intro h
    have hstands := h.stands
    have hcloses := h.passes
    rw [hvalue] at hstands hcloses
    rw [ValueText.chars, hpasses] at hcloses
    refine ⟨?_, hcloses⟩
    intro q hq
    obtain ⟨rest, hrest⟩ := List.head?_eq_some_iff.mp hq
    rw [Bool.eq_false_iff]
    intro hquote
    rw [hrest] at hcloses
    obtain ⟨inner, more, rfl, -⟩ := hcloses.exists_quotation hquote
    exact hstands.2.2.2 q _ hquote (by rw [hrest, List.append_nil]) (by simp)
  · rintro ⟨houtside, hcloses⟩
    constructor
    · rw [hvalue]
      refine ⟨hne, ?_, Text.startsOutside_nil, ?_⟩
      · intro c hc
        exact isGap_of_isWordChar (hword c hc)
      · intro q t hq hs
        rw [List.append_nil] at hs
        rw [hs] at houtside
        cases hq.symm.trans (houtside q rfl)
    · rw [hvalue, ofValueText_bare hsingle]
    · rw [hvalue]
      exact hpasses.mpr hcloses
    · rw [hvalue]
      exact (framed_of_isWordChar hne hword).last

end Operand

/-- A condition whose operand is a word with quotes of both kinds. -/
structure Condition.ComparesBare (c : Condition) (s : String) : Prop where
  field : isDottedName c.field.toList = true
  operand : c.operand = .text s
  single : '\'' ∈ s.toList
  double : '"' ∈ s.toList
  word : ∀ d ∈ s.toList, isWordChar d = true

namespace Condition

/-- What is written before the operand. -/
def beforeOperand (c : Condition) : List Char :=
  c.field.toList ++ ' ' :: c.operator.symbol.toList ++ [' ']

theorem last_after_beforeOperand (c : Condition) (k : Cursor) :
    (k.after c.beforeOperand).last = some ' ' := by
  rw [beforeOperand, Cursor.after_append]
  rfl

namespace ComparesBare

variable {c : Condition} {s : String} {k : Cursor}

theorem toList_written (h : c.ComparesBare s) :
    c.written.toList = c.beforeOperand ++ s.toList := by
  rw [toList_written_eq_field_append, comparisonChars, h.operand,
    Operand.valueText_eq_bare h.single h.double, ValueText.chars, beforeOperand]
  simp

theorem passes_beforeOperand (h : c.ComparesBare s) (hk : k.quote = none) :
    k.Passes c.beforeOperand := by
  apply Cursor.passes_of_not_delimiter hk
  rw [beforeOperand, List.append_assoc, List.cons_append]
  refine List.forall_mem_append.mpr ⟨?_, List.forall_mem_cons.mpr ⟨rfl, ?_⟩⟩
  · intro d hd
    exact ((isField_of_isDottedName h.field).forall_mem d hd).2
  · exact not_delimiter_symbol c.operator

/-- Of the whole condition only its operand decides whether a quotation is left open. -/
theorem passes_written_iff (h : c.ComparesBare s) :
    Cursor.Passes {} c.written.toList ↔ Closes true s.toList := by
  have hbefore := h.passes_beforeOperand (k := {}) rfl
  have hoperand := Cursor.passes_iff_closes h.word hbefore.quote
  rw [last_after_beforeOperand] at hoperand
  rw [h.toList_written]
  refine Iff.trans ⟨?_, hbefore.append⟩ hoperand
  exact Cursor.Passes.of_append_right

theorem plain_written (h : c.ComparesBare s) : Cursor.Plain {} c.written.toList := by
  rw [h.toList_written]
  exact Cursor.plain_append_iff.mpr
    ⟨(h.passes_beforeOperand rfl).plain, Cursor.plain_of_isWordChar h.word⟩

theorem imbalance_written (h : c.ComparesBare s) (hopen : ¬Closes true s.toList) :
    ∃ q, isQuote q = true ∧ imbalance c.written.toList = some (.openQuote q) := by
  obtain ⟨q, hquote⟩ : ∃ q, (Cursor.after {} c.written.toList).quote = some q := by
    refine Option.ne_none_iff_exists'.mp ?_
    intro hnone
    exact hopen (h.passes_written_iff.mp ⟨h.plain_written, hnone⟩)
  refine ⟨q, Cursor.isQuote_of_quote_after (k := {}) (fun p hp => by cases hp) q hquote, ?_⟩
  rw [imbalance, h.plain_written.imbalanceFrom_eq, Cursor.imbalanceAtEnd, hquote]

theorem framed_written (h : c.ComparesBare s) : Framed c.written.toList := by
  apply c.framed_written_of (isField_of_isDottedName h.field)
  rw [h.operand, Operand.valueText_eq_bare h.single h.double]
  exact (framed_of_isWordChar (List.ne_nil_of_mem h.single) h.word).last

theorem filterBody_written (h : c.ComparesBare s)
    (hlead : Text.sameLetters c.field.toList leadWord = false) :
    filterBody c.written.toList = c.written.toList := by
  have hframed := h.framed_written
  rw [toList_written_eq_field_append] at hframed ⊢
  have hfield := isField_of_isDottedName h.field
  rw [filterBody_eq hframed (fun d hd => (hfield.forall_mem d hd).1) rfl, if_neg (by simp [hlead])]

/-- An operand that begins with a quotation is that quotation, and nothing may follow it. -/
theorem read?_written_of_quotation (h : c.ComparesBare s) {q : Char} {inner rest : List Char}
    (hq : isQuote q = true) (hinner : q ∉ inner) (hs : s.toList = q :: inner ++ q :: rest) :
    ConditionText.read? c.written.toList =
      if rest.isEmpty then
        some ⟨[], c.field.toList, [' '], c.operator.symbol.toList, [' '], .quoted q inner, []⟩
      else none := by
  obtain ⟨hne, hsymbol⟩ := symbol_chars c.operator
  have hgap : ∀ d ∈ [' '], isGap d = true := List.forall_mem_singleton.mpr rfl
  have hhead : Text.StartsOutside isGap s.toList := by
    rw [hs]
    exact Text.startsOutside_cons (isGap_of_isQuote hq)
  have hvalue : readValue s.toList = some (.quoted q inner, rest) :=
    readValue_eq_some_iff.mpr ⟨⟨hq, hinner⟩, by simp [ValueText.chars, hs]⟩
  have hrest : Text.StartsOutside isGap rest := by
    intro d hd
    exact isGap_of_isWordChar (h.word d (by simp [hs, List.mem_of_mem_head? hd]))
  have hspan : rest.span isGap = ([], rest) := Text.span_append (a := []) (by simp) hrest
  have hread := ConditionText.read?_of_readValue (List.forall_mem_nil (isGap · = true))
    (isField_of_isDottedName h.field) hgap hne hsymbol (Text.startsOutside_cons rfl) hgap hhead
    hvalue
  rw [hspan] at hread
  rw [h.toList_written, beforeOperand]
  simpa using hread

theorem ofChars_written_of_quotation (h : c.ComparesBare s) {q : Char} {inner rest : List Char}
    (hq : isQuote q = true) (hinner : q ∉ inner) (hs : s.toList = q :: inner ++ q :: rest) :
    ofChars c.written.toList =
      if rest.isEmpty then .ok { c with operand := .text (String.ofList inner), link := .or }
      else .error (.invalidCondition c.written) := by
  rw [ofChars, h.read?_written_of_quotation hq hinner hs, String.ofList_toList]
  cases rest with
  | nil => simp [ofParts, Operator.ofSymbol?_symbol, Operand.ofValueText]
  | cons d rest => rfl

theorem legible (h : c.ComparesBare s) (houtside : Text.StartsOutside isQuote s.toList)
    (hcloses : Closes true s.toList) : c.Legible := by
  refine ⟨isField_of_isDottedName h.field, ?_⟩
  rw [h.operand]
  exact (Operand.legible_text_iff h.single h.double h.word).mpr ⟨houtside, hcloses⟩

end ComparesBare

end Condition

namespace Filter

variable {c : Condition} {s : String}

/-- Text without a connective or a parenthesis outside its quotations is read as one condition. -/
theorem ofChars_of_passes {text : List Char} (hbody : filterBody text = text)
    (hframed : Framed text) (hpasses : Cursor.Passes {} text) :
    ofChars text = (Condition.ofChars text).map fun c => [.condition c] := by
  have hbalanced : imbalance text = none := by
    rw [imbalance, hpasses.plain.imbalanceFrom_eq]
    exact Cursor.imbalanceAtEnd_eq_none_iff.mpr (hpasses.outermost_after Cursor.outermost_start)
  have hsplit : split text = [.condition text] := by
    have hplain : splitFrom {} [] (text ++ []) = _ := splitFrom_append_of_plain hpasses.plain
    rw [List.append_nil, List.append_nil, splitFrom, List.reverse_reverse,
      conditionToken_of_framed hframed] at hplain
    exact hplain
  obtain ⟨fuel, hfuel⟩ := Nat.exists_eq_succ_of_ne_zero
    (List.length_pos_iff.mpr hframed.ne_nil).ne'
  simp only [ofChars, hbody, hfuel, readLevel, splitBalanced, hbalanced, hsplit, readTokens]
  cases hread : Condition.ofChars text with
  | error e => rfl
  | ok c =>
      have hlink := link_of_ofChars hread
      obtain ⟨field, operator, operand, link⟩ := c
      cases hlink
      rfl

/-- Text with quotes of both kinds is written bare, without anything that hides what it holds. It is
read back exactly where each quotation that begins in it is closed and none begins it. Where one is
left open, the text is refused; where one begins it, the condition is on the text between those
quotes, or is none if more follows. -/
theorem ofText_written_bare (c : Condition) (s : String) (h : c.ComparesBare s)
    (hlead : Text.sameLetters c.field.toList leadWord = false) :
    (ofText c.written = .ok [.condition { c with link := .or }] ↔
      Text.StartsOutside isQuote s.toList ∧ Closes true s.toList) ∧
    (¬Closes true s.toList →
      ∃ q, isQuote q = true ∧ ofText c.written = .error ⟨c.written, .malformed (.openQuote q)⟩) ∧
    ∀ q inner rest, isQuote q = true → q ∉ inner → Closes false rest →
      s.toList = q :: inner ++ q :: rest →
      ofText c.written =
        if rest.isEmpty then
          .ok [.condition { c with operand := .text (String.ofList inner), link := .or }]
        else .error ⟨c.written, .invalidCondition c.written⟩ := by
  have hbody := h.filterBody_written hlead
  refine ⟨⟨?_, ?_⟩, ?_, ?_⟩
  · intro hread
    have hlegible := (legible_condition_iff.mp (legible_of_ofText hread)).operand
    rw [h.operand] at hlegible
    exact (Operand.legible_text_iff h.single h.double h.word).mp hlegible
  · rintro ⟨houtside, hcloses⟩
    have hchars := ofChars_of_passes hbody h.framed_written (h.passes_written_iff.mpr hcloses)
    rw [ofText_eq_ok_iff, hchars, (h.legible houtside hcloses).ofChars_written]
    rfl
  · intro hopen
    obtain ⟨q, hq, hfault⟩ := h.imbalance_written hopen
    refine ⟨q, hq, ofText_eq_error_iff.mpr ⟨rfl, ofChars_of_imbalance ?_⟩⟩
    rw [hbody, hfault]
  · intro q inner rest hq hinner hrest hs
    have hcloses : Closes true s.toList := by
      rw [hs]
      exact .quotation hq hinner hrest
    rw [ofText, ofChars_of_passes hbody h.framed_written (h.passes_written_iff.mpr hcloses),
      h.ofChars_written_of_quotation hq hinner hs]
    split <;> rfl

/-- Quotes inside a word, a quotation left open behind a character of operators, and one at the front
with more behind it. -/
theorem ofText_written_bare_placed :
    let inside : Condition := ⟨"owner.name", .like, .text "o'brien\"s", .and⟩
    let opened : Condition := ⟨"rule", .equal, .text "k='v\"", .or⟩
    let leading : Condition := ⟨"rule", .equal, .text "'k'=\"v\"", .or⟩
    inside.ComparesBare "o'brien\"s" ∧ opened.ComparesBare "k='v\"" ∧
      leading.ComparesBare "'k'=\"v\"" ∧
      ofText inside.written = .ok [.condition { inside with link := .or }] ∧
      (∃ q, isQuote q = true ∧
        ofText opened.written = .error ⟨opened.written, .malformed (.openQuote q)⟩) ∧
      ofText leading.written = .error ⟨leading.written, .invalidCondition leading.written⟩ := by
  intro inside opened leading
  have hinside : inside.ComparesBare "o'brien\"s" :=
    ⟨by decide, rfl, by decide, by decide, List.all_eq_true.mp rfl⟩
  have hopened : opened.ComparesBare "k='v\"" :=
    ⟨by decide, rfl, by decide, by decide, List.all_eq_true.mp rfl⟩
  have hleading : leading.ComparesBare "'k'=\"v\"" :=
    ⟨by decide, rfl, by decide, by decide, List.all_eq_true.mp rfl⟩
  refine ⟨hinside, hopened, hleading, ?_, ?_, ?_⟩
  · refine (ofText_written_bare inside _ hinside (by decide)).1.mpr ⟨?_, ?_⟩
    · exact Text.startsOutside_cons rfl
    · exact (closes_iff hinside.word).mpr (by decide)
  · refine (ofText_written_bare opened _ hopened (by decide)).2.1 ?_
    rw [closes_iff hopened.word]
    decide
  · have hmore : Closes false ['=', '"', 'v', '"'] :=
      .char nofun (@Closes.quotation '"' ['v'] [] rfl (by decide) (.nil false))
    exact (ofText_written_bare leading _ hleading (by decide)).2.2 '\'' ['k'] _ rfl (by decide) hmore
      rfl

/-- A word between quotes of one kind, with a quote of the other kind in it, comes back without the
quotes around it. -/
theorem ofText_written_bare_misread :
    let c : Condition := ⟨"x", .equal, .text "'a\"b'", .or⟩
    c.ComparesBare "'a\"b'" ∧ Text.sameLetters c.field.toList leadWord = false ∧
      c.written = "x = 'a\"b'" ∧
      ofText "x = 'a\"b'" = .ok [.condition { c with operand := .text "a\"b" }] := by
  intro c
  exact ⟨⟨by decide, rfl, by decide, by decide, List.all_eq_true.mp rfl⟩, by decide, rfl, rfl⟩

end Filter

end RecordFilter
