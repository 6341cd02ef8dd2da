import RecordFilter.Expression.Cursor

/-!
How the cursor moves over whole texts. A text that is balanced brings it back to the outermost
level, and does the same inside parentheses.
-/

namespace RecordFilter.Expression

/-- The characters that a scan does not pass over as they are. -/
def isDelimiter (c : Char) : Bool :=
  isQuote c || c == '(' || c == ')' || c == '&' || c == '|'

theorem isDelimiter_of_imp {p : Char → Bool} {c : Char} (h : p c = true)
    (hp : p '\'' = false ∧ p '"' = false ∧ p '(' = false ∧ p ')' = false ∧ p '&' = false ∧
      p '|' = false) : isDelimiter c = false := by
  obtain ⟨hsingle, hdouble, hopening, hclosing, hand, hor⟩ := hp
  rw [isDelimiter, isQuote]
  simp only [Bool.or_eq_false_iff, beq_eq_false_iff_ne]
  refine ⟨⟨⟨⟨⟨?_, ?_⟩, ?_⟩, ?_⟩, ?_⟩, ?_⟩ <;> rintro rfl <;> simp_all

theorem isDelimiter_of_isBlank {c : Char} (h : Text.isBlank c = true) : isDelimiter c = false :=
  isDelimiter_of_imp h (by decide)

theorem not_delimiter_of_forall_blank {s : List Char} (hs : ∀ c ∈ s, Text.isBlank c = true) :
    ∀ c ∈ s, isDelimiter c = false := by
  intro c hc
  exact isDelimiter_of_isBlank (hs c hc)

theorem isDelimiter_of_isOperatorChar {c : Char} (h : isOperatorChar c = true) :
    isDelimiter c = false :=
  isDelimiter_of_imp h (by decide)

theorem opensQuotation_of_isBlank {c : Char} (h : Text.isBlank c = true) :
    opensQuotation (some c) = true := by
  simp [opensQuotation, h]

theorem opensQuotation_of_isOperatorChar {c : Char} (h : isOperatorChar c = true) :
    opensQuotation (some c) = true := by
  simp [opensQuotation, h]

theorem opensQuotation_symbol (l : Connective) : opensQuotation (some l.symbol) = true := by
  cases l <;> rfl

namespace Cursor

variable {k k' : Cursor} {c : Char} {s t : List Char}

def after (k : Cursor) (s : List Char) : Cursor :=
  s.foldl advance k

theorem after_nil : k.after [] = k := rfl

theorem after_cons : k.after (c :: s) = (k.advance c).after s := rfl

theorem after_append : k.after (s ++ t) = (k.after s).after t :=
  List.foldl_append

/-- Outside every quotation and every pair of parentheses. -/
structure Outermost (k : Cursor) : Prop where
  quote : k.quote = none
  depth : k.depth = 0

theorem outermost_start : Outermost {} :=
  ⟨rfl, rfl⟩

theorem outermost_mk {last : Option Char} : Outermost ⟨none, last, 0⟩ :=
  ⟨rfl, rfl⟩

theorem Outermost.eq_mk (h : k.Outermost) : k = ⟨none, k.last, 0⟩ := by
  obtain ⟨quote, last, depth⟩ := k
  obtain ⟨rfl, rfl⟩ := h
  rfl

theorem quote_advance_of_some {q : Char} (hk : k.quote = some q) :
    (k.advance c).quote = if c = q then none else some q := by
  rw [advance, quoteAfter, hk]

theorem quote_advance_of_none (hk : k.quote = none) :
    (k.advance c).quote = if isQuote c && opensQuotation k.last then some c else none := by
  rw [advance, quoteAfter, hk]

theorem mark_of_quote {q : Char} (h : k.quote = some q) : k.mark c = .plain := by
  simp [mark, h]

theorem mark_eq_of_quote_eq (h : k.quote = k'.quote) : k.mark c = k'.mark c := by
  simp only [mark, h]

theorem depth_advance : (k.advance c).depth =
    match k.mark c with
    | .opening => k.depth + 1
    | .closing => k.depth - 1
    | _ => k.depth := rfl

theorem depth_advance_ne_zero (hk : k.depth ≠ 0)
    (hclosing : k.mark c = .closing → k.depth ≠ 1) : (k.advance c).depth ≠ 0 := by
  rw [depth_advance]
  cases hmark : k.mark c with
  | closing =>
      have hdepth := hclosing hmark
      simp only
      omega
  | opening => exact Nat.succ_ne_zero _
  | _ => exact hk

theorem mark_opening (h : k.quote = none) : k.mark '(' = .opening := by
  simp [mark, h]

theorem mark_closing (h : k.quote = none) : k.mark ')' = .closing := by
  simp [mark, h]

theorem mark_symbol (h : k.quote = none) (l : Connective) : k.mark l.symbol = .link l := by
  cases l <;> simp [mark, h, Connective.symbol, Connective.ofSymbol?]

theorem quote_of_mark_ne_plain (h : k.mark c ≠ .plain) : k.quote = none := by
  cases hquote : k.quote with
  | none => rfl
  | some q => exact absurd (mark_of_quote hquote) h

theorem mark_eq_plain (hopening : c ≠ '(') (hclosing : c ≠ ')') (hand : c ≠ '&') (hor : c ≠ '|') :
    k.mark c = .plain := by
  have hlink : Connective.ofSymbol? c = none := by
    rw [Connective.ofSymbol?]
    · exact hand
    · exact hor
  rw [mark, hlink]
  · split <;> rfl
  · exact hopening
  · exact hclosing

theorem mark_of_not_delimiter (hc : isDelimiter c = false) : k.mark c = .plain := by
  simp only [isDelimiter, Bool.or_eq_false_iff, beq_eq_false_iff_ne] at hc
  obtain ⟨⟨⟨⟨_, hopening⟩, hclosing⟩, hand⟩, hor⟩ := hc
  exact mark_eq_plain hopening hclosing hand hor

theorem mark_of_isQuote (hc : isQuote c = true) : k.mark c = .plain := by
  simp only [isQuote, Bool.or_eq_true, beq_iff_eq] at hc
  rcases hc with rfl | rfl <;> exact mark_eq_plain (by decide) (by decide) (by decide) (by decide)

theorem advance_of_not_delimiter (hk : k.quote = none) (hc : isDelimiter c = false) :
    k.advance c = ⟨none, some c, k.depth⟩ := by
  have hquote : isQuote c = false := by
    simp only [isDelimiter, Bool.or_eq_false_iff] at hc
    exact hc.1.1.1.1
  simp [advance, quoteAfter, hk, hquote, depthAfter, mark_of_not_delimiter hc]

/-- Of the character before it, a step uses only whether a quotation may open behind it. -/
theorem advance_congr (hquote : k.quote = k'.quote) (hdepth : k.depth = k'.depth)
    (hlast : opensQuotation k.last = opensQuotation k'.last) : k.advance c = k'.advance c := by
  simp only [advance, quoteAfter, depthAfter, hquote, hdepth, hlast, mark_eq_of_quote_eq hquote]

theorem quote_advance_of_mark_ne_plain (h : k.mark c ≠ .plain) : (k.advance c).quote = none := by
  have hc : isQuote c = false := by
    cases hc : isQuote c with
    | false => rfl
    | true => exact absurd (mark_of_isQuote hc) h
  rw [quote_advance_of_none (quote_of_mark_ne_plain h), hc]
  rfl

theorem last_after (hs : s ≠ []) : (k.after s).last = s.getLast? := by
  induction s generalizing k with
  | nil => exact absurd rfl hs
  | cons c s ih =>
      cases s with
      | nil => rfl
      | cons d s =>
          rw [after_cons, ih (List.cons_ne_nil d s), List.getLast?_cons_cons]

theorem opensQuotation_after (ht : t ≠ []) (h : ∀ c ∈ t, opensQuotation (some c) = true) :
    opensQuotation (k.after (s ++ t)).last = true := by
  rw [after_append, last_after ht, List.getLast?_eq_some_getLast ht]
  exact h _ (List.getLast_mem ht)

/-! Texts that are passed over. -/

/-- Every character of the text belongs to what is being read where it stands. -/
def Plain (k : Cursor) : List Char → Prop
  | [] => True
  | c :: s => k.mark c = .plain ∧ (k.advance c).Plain s

theorem plain_append_iff : k.Plain (s ++ t) ↔ k.Plain s ∧ (k.after s).Plain t := by
  induction s generalizing k with
  | nil => simp [Plain, after_nil]
  | cons c s ih => rw [List.cons_append, Plain, Plain, ih, after_cons, and_assoc]

theorem Plain.depth_after (h : k.Plain s) : (k.after s).depth = k.depth := by
  induction s generalizing k with
  | nil => rfl
  | cons c s ih =>
      rw [after_cons, ih h.2, depth_advance, h.1]

theorem Plain.imbalanceFrom_append (h : k.Plain s) :
    k.imbalanceFrom (s ++ t) = (k.after s).imbalanceFrom t := by
  induction s generalizing k with
  | nil => rfl
  | cons c s ih =>
      rw [List.cons_append, imbalanceFrom, if_neg (by simp [h.1]), ih h.2, after_cons]

theorem Plain.imbalanceFrom_eq (h : k.Plain s) :
    k.imbalanceFrom s = (k.after s).imbalanceAtEnd := by
  have hafter := h.imbalanceFrom_append (t := [])
  rw [List.append_nil] at hafter
  exact hafter

/-- The text is passed over, and no quotation is open behind it. -/
structure Passes (k : Cursor) (s : List Char) : Prop where
  plain : k.Plain s
  quote : (k.after s).quote = none

theorem passes_nil (hk : k.quote = none) : k.Passes [] :=
  ⟨trivial, hk⟩

theorem Passes.append (hs : k.Passes s) (ht : (k.after s).Passes t) : k.Passes (s ++ t) where
  plain := plain_append_iff.mpr ⟨hs.plain, ht.plain⟩
  quote := by rw [after_append, ht.quote]

theorem Passes.outermost_after (h : k.Passes s) (hk : k.Outermost) : (k.after s).Outermost :=
  ⟨h.quote, h.plain.depth_after.trans hk.depth⟩

theorem passes_of_not_delimiter (hk : k.quote = none) (hs : ∀ c ∈ s, isDelimiter c = false) :
    k.Passes s := by
  induction s generalizing k with
  | nil => exact passes_nil hk
  | cons c s ih =>
      rw [List.forall_mem_cons] at hs
      have hstep := advance_of_not_delimiter hk hs.1
      have hrest := ih (k := k.advance c) (by rw [hstep]) hs.2
      exact ⟨⟨mark_of_not_delimiter hs.1, hrest.plain⟩, hrest.quote⟩

theorem quote_after_of_quote {q : Char} (hk : k.quote = some q) (hs : q ∉ s) :
    k.Plain s ∧ (k.after s).quote = some q := by
  induction s generalizing k with
  | nil => exact ⟨trivial, hk⟩
  | cons c s ih =>
      rw [List.mem_cons, not_or] at hs
      have hquote : (k.advance c).quote = some q := by
        rw [quote_advance_of_some hk, if_neg (Ne.symm hs.1)]
      obtain ⟨hplain, hafter⟩ := ih hquote hs.2
      exact ⟨⟨mark_of_quote hk, hplain⟩, hafter⟩

/-- A quotation is passed over as a whole, whatever stands in it. -/
theorem passes_quotation {q : Char} (hk : k.quote = none) (hopens : opensQuotation k.last = true)
    (hq : isQuote q = true) (hs : q ∉ s) : k.Passes (q :: s ++ [q]) := by
  have hopened : (k.advance q).quote = some q := by
    rw [quote_advance_of_none hk, hq, hopens]
    rfl
  obtain ⟨hinside, hopen⟩ := quote_after_of_quote hopened hs
  have hclosed : (((k.advance q).after s).advance q).quote = none := by
    rw [quote_advance_of_some hopen, if_pos rfl]
  refine ⟨⟨mark_of_isQuote hq, plain_append_iff.mpr ⟨hinside, mark_of_quote hopen, trivial⟩⟩, ?_⟩
  rw [List.cons_append, after_cons, after_append]
  exact hclosed

theorem passes_congr (hquote : k.quote = k'.quote) (hdepth : k.depth = k'.depth)
    (hlast : opensQuotation k.last = opensQuotation k'.last) (h : k.Passes s) : k'.Passes s := by
  cases s with
  | nil => exact passes_nil (hquote.symm.trans h.quote)
  | cons c s =>
      obtain ⟨⟨hmark, hplain⟩, hafter⟩ := h
      rw [after_cons] at hafter
      rw [advance_congr hquote hdepth hlast] at hplain hafter
      rw [mark_eq_of_quote_eq hquote] at hmark
      exact ⟨⟨hmark, hplain⟩, hafter⟩

theorem isQuote_of_quote_after (hk : ∀ q, k.quote = some q → isQuote q = true) :
    ∀ q, (k.after s).quote = some q → isQuote q = true := by
  induction s generalizing k with
  | nil => exact hk
  | cons c s ih =>
      apply ih
      intro q hq
      cases hquote : k.quote with
      | none =>
          rw [quote_advance_of_none hquote, Option.ite_none_right_eq_some] at hq
          obtain ⟨hopens, hc⟩ := hq
          cases hc
          exact (Bool.and_eq_true_iff.mp hopens).1
      | some p =>
          rw [quote_advance_of_some hquote, Option.ite_none_left_eq_some] at hq
          exact Option.some.inj hq.2 ▸ hk p hquote

theorem Passes.of_append_right (h : k.Passes (s ++ t)) : (k.after s).Passes t :=
  ⟨(plain_append_iff.mp h.plain).2, by rw [← after_append, h.quote]⟩

/-- Characters that are no delimiters do not close a quotation. -/
theorem Passes.of_append_left (h : k.Passes (s ++ t)) (hk : k.quote = none)
    (ht : ∀ c ∈ t, isDelimiter c = false) : k.Passes s := by
  refine ⟨(plain_append_iff.mp h.plain).1, ?_⟩
  cases hquote : (k.after s).quote with
  | none => rfl
  | some q =>
      have hq : isQuote q = true := isQuote_of_quote_after (by simp [hk]) q hquote
      have hmem : q ∉ t := by
        intro hmem
        have hdelimiter := ht q hmem
        simp [isDelimiter, hq] at hdelimiter
      have hafter := h.quote
      rw [after_append, (quote_after_of_quote hquote hmem).2] at hafter
      cases hafter

/-! Balanced texts. -/

theorem advance_opening (hk : k.quote = none) : k.advance '(' = ⟨none, some '(', k.depth + 1⟩ := by
  simp [advance, quoteAfter, hk, isQuote, depthAfter, mark_opening hk]

theorem advance_closing (hk : k.quote = none) : k.advance ')' = ⟨none, some ')', k.depth - 1⟩ := by
  simp [advance, quoteAfter, hk, isQuote, depthAfter, mark_closing hk]

theorem advance_symbol (hk : k.quote = none) (l : Connective) :
    k.advance l.symbol = ⟨none, some l.symbol, k.depth⟩ := by
  have hquote : isQuote l.symbol = false := by
    cases l <;> rfl
  simp [advance, quoteAfter, hk, hquote, depthAfter, mark_symbol hk]

theorem imbalanceAtEnd_eq_none_iff : k.imbalanceAtEnd = none ↔ k.Outermost := by
  rw [imbalanceAtEnd]
  constructor
  · intro h
    cases hquote : k.quote with
    | none =>
        rw [hquote] at h
        refine ⟨hquote, ?_⟩
        by_cases hdepth : k.depth = 0
        · exact hdepth
        · rw [if_neg hdepth] at h
          cases h
    | some q =>
        rw [hquote] at h
        cases h
  · rintro ⟨hquote, hdepth⟩
    rw [hquote]
    exact if_pos hdepth

theorem imbalanceFrom_cons_eq_none_iff :
    k.imbalanceFrom (c :: s) = none ↔
      ¬(k.mark c = .closing ∧ k.depth = 0) ∧ (k.advance c).imbalanceFrom s = none := by
  rw [imbalanceFrom]
  split
  · next h => simp [h]
  · next h => simp [h]

theorem outermost_after_of_balanced (h : k.imbalanceFrom s = none) : (k.after s).Outermost := by
  induction s generalizing k with
  | nil => exact imbalanceAtEnd_eq_none_iff.mp h
  | cons c s ih => exact ih (imbalanceFrom_cons_eq_none_iff.mp h).2

theorem imbalanceFrom_append (h : k.imbalanceFrom s = none) :
    k.imbalanceFrom (s ++ t) = (k.after s).imbalanceFrom t := by
  induction s generalizing k with
  | nil => rfl
  | cons c s ih =>
      obtain ⟨hc, hrest⟩ := imbalanceFrom_cons_eq_none_iff.mp h
      rw [List.cons_append, imbalanceFrom, if_neg hc, ih hrest, after_cons]

theorem imbalanceFrom_congr (hquote : k.quote = k'.quote) (hdepth : k.depth = k'.depth)
    (hlast : opensQuotation k.last = opensQuotation k'.last) :
    k.imbalanceFrom s = k'.imbalanceFrom s := by
  cases s with
  | nil => simp only [imbalanceFrom, imbalanceAtEnd, hquote, hdepth]
  | cons c s =>
      simp only [imbalanceFrom, mark_eq_of_quote_eq hquote, hdepth,
        advance_congr hquote hdepth hlast]

/-- The same place inside one more pair of parentheses. -/
def deeper (k : Cursor) : Cursor :=
  { k with depth := k.depth + 1 }

theorem mark_deeper : k.deeper.mark c = k.mark c := rfl

theorem advance_deeper (h : ¬(k.mark c = .closing ∧ k.depth = 0)) :
    k.deeper.advance c = (k.advance c).deeper := by
  have hdepth : k.deeper.depthAfter c = k.depthAfter c + 1 := by
    rw [depthAfter, depthAfter, mark_deeper]
    cases hmark : k.mark c with
    | closing =>
        have hpositive : k.depth ≠ 0 := by
          intro hdepth
          exact h ⟨hmark, hdepth⟩
        simp only [deeper]
        omega
    | _ => rfl
  rw [advance, hdepth]
  rfl

theorem imbalanceFrom_deeper_append (h : k.imbalanceFrom s = none) :
    k.deeper.imbalanceFrom (s ++ t) = (k.after s).deeper.imbalanceFrom t := by
  induction s generalizing k with
  | nil => rfl
  | cons c s ih =>
      obtain ⟨hc, hrest⟩ := imbalanceFrom_cons_eq_none_iff.mp h
      have hinside : ¬(k.deeper.mark c = .closing ∧ k.deeper.depth = 0) := by
        simp [deeper]
      rw [List.cons_append, imbalanceFrom, if_neg hinside, advance_deeper hc, ih hrest, after_cons]

end Cursor

open Cursor

variable {s t : List Char}

/-- Parentheses and quotes pair up in the text, wherever on the outermost level it stands. -/
def Balanced (s : List Char) : Prop :=
  ∀ k : Cursor, k.Outermost → k.imbalanceFrom s = none

theorem balanced_nil : Balanced [] := by
  intro k hk
  exact imbalanceAtEnd_eq_none_iff.mpr hk

theorem Balanced.append (hs : Balanced s) (ht : Balanced t) : Balanced (s ++ t) := by
  intro k hk
  rw [imbalanceFrom_append (hs k hk)]
  exact ht _ (outermost_after_of_balanced (hs k hk))

theorem balanced_of_passes (hs : ∀ k : Cursor, k.Outermost → k.Passes s) : Balanced s := by
  intro k hk
  rw [(hs k hk).plain.imbalanceFrom_eq]
  exact imbalanceAtEnd_eq_none_iff.mpr ((hs k hk).outermost_after hk)

theorem balanced_symbol (l : Connective) : Balanced [l.symbol] := by
  intro k hk
  rw [imbalanceFrom_cons_eq_none_iff, advance_symbol hk.quote, mark_symbol hk.quote, hk.depth]
  exact ⟨by simp, rfl⟩

theorem imbalanceFrom_opening : imbalanceFrom ⟨none, some '(', 0⟩ s = imbalance s :=
  imbalanceFrom_congr rfl rfl rfl

/-- What stands between parentheses is met where a text begins. -/
theorem balanced_parenthesised (hs : imbalance s = none) : Balanced ('(' :: s ++ [')']) := by
  intro k hk
  have hinner : imbalanceFrom ⟨none, some '(', 0⟩ s = none := imbalanceFrom_opening.trans hs
  have hafter := outermost_after_of_balanced hinner
  rw [List.cons_append, imbalanceFrom_cons_eq_none_iff, mark_opening hk.quote,
    advance_opening hk.quote, hk.depth]
  refine ⟨by simp, ?_⟩
  change (Cursor.deeper ⟨none, some '(', 0⟩).imbalanceFrom (s ++ [')']) = none
  rw [imbalanceFrom_deeper_append hinner, hafter.eq_mk, imbalanceFrom_cons_eq_none_iff,
    mark_closing rfl, advance_closing rfl]
  exact ⟨by simp [deeper], rfl⟩

theorem Balanced.imbalance_eq_none (hs : Balanced s) : imbalance s = none :=
  hs {} outermost_start

end RecordFilter.Expression
