import Mathlib
import RecordFilter.Expression.Token
import RecordFilter.Proofs.Expression.Scan
import RecordFilter.Proofs.Text.Run
import RecordFilter.Proofs.Text.Trim

/-!
The tokens of a text, read off stretch by stretch; where the condition tokens of a balanced text
come from; and the text that is left of a filter without the word before it.
-/

namespace RecordFilter.Expression

open Cursor
open Text (Framed trim)

variable {k k' : Cursor} {c : Char} {held s t text : List Char}

theorem conditionToken_eq (s : List Char) :
    conditionToken s = if trim s = [] then [] else [.condition (trim s)] := by
  rw [conditionToken]
  split
  · next hnil => rw [if_pos hnil]
  · next hne => rw [if_neg hne]

theorem conditionToken_of_framed (h : Framed s) : conditionToken s = [.condition s] := by
  rw [conditionToken, h.trim_eq]
  split
  · exact absurd rfl h.ne_nil
  · rfl

theorem conditionToken_blank_append (hs : ∀ c ∈ s, Text.isBlank c = true) :
    conditionToken (s ++ t) = conditionToken t := by
  rw [conditionToken, Text.trim_blank_append hs, conditionToken]

theorem conditionToken_append_blank (ht : ∀ c ∈ t, Text.isBlank c = true) :
    conditionToken (s ++ t) = conditionToken s := by
  rw [conditionToken, Text.trim_append_blank ht, conditionToken]

theorem conditionToken_of_forall (hs : ∀ c ∈ s, Text.isBlank c = true) : conditionToken s = [] := by
  have h := conditionToken_blank_append (t := []) hs
  rw [List.append_nil] at h
  rw [h]
  rfl

theorem mem_conditionToken {token : Token} (h : token ∈ conditionToken s) :
    token = .condition (trim s) ∧ trim s ≠ [] := by
  rw [conditionToken] at h
  split at h
  · cases h
  · next hne => exact ⟨List.mem_singleton.mp h, hne⟩

theorem splitFrom_congr (hquote : k.quote = k'.quote) (hdepth : k.depth = k'.depth)
    (hlast : opensQuotation k.last = opensQuotation k'.last) :
    splitFrom k held s = splitFrom k' held s := by
  cases s with
  | nil => rfl
  | cons c s =>
      simp only [splitFrom, mark_eq_of_quote_eq hquote, hdepth, advance_congr hquote hdepth hlast]

theorem splitFrom_of_plain (hc : k.mark c = .plain) :
    splitFrom k held (c :: s) = splitFrom (k.advance c) (c :: held) s := by
  simp only [splitFrom, hc]

theorem splitFrom_of_opening (hc : k.mark c = .opening) (hk : k.depth = 0) :
    splitFrom k held (c :: s) = conditionToken held.reverse ++ splitFrom (k.advance c) [] s := by
  simp only [splitFrom, hc, hk]

theorem splitFrom_of_closing (hc : k.mark c = .closing) (hk : k.depth = 1) :
    splitFrom k held (c :: s) = .group held.reverse :: splitFrom (k.advance c) [] s := by
  simp only [splitFrom, hc, hk]

theorem splitFrom_of_link {l : Connective} (hc : k.mark c = .link l) (hk : k.depth = 0) :
    splitFrom k held (c :: s) =
      conditionToken held.reverse ++ .link l :: splitFrom (k.advance c) [] s := by
  simp only [splitFrom, hc, hk]

theorem splitFrom_of_inside (hk : k.depth ≠ 0) (hnext : (k.advance c).depth ≠ 0) :
    splitFrom k held (c :: s) = splitFrom (k.advance c) (c :: held) s := by
  have hclosing : k.mark c = .closing → k.depth ≠ 1 := by
    intro hc hone
    simp [advance, depthAfter, hc, hone] at hnext
  rw [splitFrom]
  split
  · contradiction
  · next hc hone => exact absurd hone (hclosing hc)
  · contradiction
  · rfl

theorem splitFrom_append_of_plain (h : k.Plain s) :
    splitFrom k held (s ++ t) = splitFrom (k.after s) (s.reverse ++ held) t := by
  induction s generalizing k held with
  | nil => rfl
  | cons c s ih =>
      rw [List.cons_append, splitFrom_of_plain h.1, ih h.2, after_cons, List.reverse_cons,
        List.append_assoc, List.singleton_append]

/-- Inside parentheses a balanced text is held as it is. -/
theorem splitFrom_deeper_append (h : k.imbalanceFrom s = none) :
    splitFrom k.deeper held (s ++ t) = splitFrom (k.after s).deeper (s.reverse ++ held) t := by
  induction s generalizing k held with
  | nil => rfl
  | cons c s ih =>
      obtain ⟨hc, hrest⟩ := imbalanceFrom_cons_eq_none_iff.mp h
      have hinside : (k.deeper.advance c).depth ≠ 0 := by
        rw [advance_deeper hc]
        exact Nat.succ_ne_zero _
      rw [List.cons_append, splitFrom_of_inside (Nat.succ_ne_zero _) hinside, advance_deeper hc,
        ih hrest, after_cons, List.reverse_cons, List.append_assoc, List.singleton_append]

theorem splitFrom_group (hk : k.Outermost) (hs : imbalance s = none) :
    splitFrom k held ('(' :: (s ++ ')' :: t)) =
      conditionToken held.reverse ++ .group s :: splitFrom ⟨none, some ')', 0⟩ [] t := by
  have hinner : imbalanceFrom ⟨none, some '(', 0⟩ s = none := imbalanceFrom_opening.trans hs
  rw [splitFrom_of_opening (mark_opening hk.quote) hk.depth, advance_opening hk.quote, hk.depth]
  congr 1
  change splitFrom (Cursor.deeper ⟨none, some '(', 0⟩) [] (s ++ ')' :: t) = _
  rw [splitFrom_deeper_append hinner, (outermost_after_of_balanced hinner).eq_mk,
    splitFrom_of_closing (mark_closing rfl) rfl, advance_closing rfl]
  simp [deeper]

theorem splitFrom_symbol (hk : k.Outermost) (l : Connective) :
    splitFrom k held (l.symbol :: s) =
      conditionToken held.reverse ++ .link l :: splitFrom ⟨none, some l.symbol, 0⟩ [] s := by
  rw [splitFrom_of_link (mark_symbol hk.quote l) hk.depth, advance_symbol hk.quote, hk.depth]

/-- The text is trimmed, and the scan passes over it on the outermost level. -/
structure StandsAlone (text : List Char) : Prop where
  framed : Framed text
  passes : ∃ k : Cursor, k.Outermost ∧ k.Passes text

theorem standsAlone_of_mem_conditionToken (hk : k.Outermost) (hpasses : k.Passes held)
    (h : .condition text ∈ conditionToken held) : StandsAlone text := by
  obtain ⟨htext, hne⟩ := mem_conditionToken h
  cases htext
  refine ⟨Text.framed_trim hne, ?_⟩
  obtain ⟨a, b, hheld, ha, hb⟩ := Text.exists_eq_append_trim_append held
  have hbefore := passes_of_not_delimiter hk.quote (not_delimiter_of_forall_blank ha)
  have hplace := hbefore.outermost_after hk
  rw [hheld] at hpasses
  have htrimmed := hpasses.of_append_right.of_append_left hplace.quote
    (not_delimiter_of_forall_blank hb)
  exact ⟨k.after a, hplace, htrimmed⟩

/-- On the outermost level, the text held is what has been passed over since the last token. -/
def HeldSince (k : Cursor) (held : List Char) : Prop :=
  k.depth = 0 → ∃ start : Cursor, start.Outermost ∧ start.Plain held.reverse ∧
    start.after held.reverse = k

theorem heldSince_start : HeldSince {} [] := by
  intro _
  exact ⟨{}, outermost_start, trivial, rfl⟩

theorem heldSince_advance (hc : k.mark c ≠ .plain) : HeldSince (k.advance c) [] := by
  intro hdepth
  exact ⟨k.advance c, ⟨quote_advance_of_mark_ne_plain hc, hdepth⟩, trivial, rfl⟩

theorem HeldSince.advance_of_plain (h : HeldSince k held) (hc : k.mark c = .plain) :
    HeldSince (k.advance c) (c :: held) := by
  intro hdepth
  rw [depth_advance, hc] at hdepth
  obtain ⟨start, hstart, hplain, hafter⟩ := h hdepth
  refine ⟨start, hstart, ?_, ?_⟩
  · rw [List.reverse_cons, plain_append_iff, hafter]
    exact ⟨hplain, hc, trivial⟩
  · rw [List.reverse_cons, after_append, hafter]
    rfl

theorem HeldSince.standsAlone (h : HeldSince k held) (hk : k.Outermost)
    (hmem : .condition text ∈ conditionToken held.reverse) : StandsAlone text := by
  obtain ⟨start, hstart, hplain, hafter⟩ := h hk.depth
  exact standsAlone_of_mem_conditionToken hstart ⟨hplain, hafter ▸ hk.quote⟩ hmem

theorem standsAlone_of_mem_splitFrom (hbalanced : k.imbalanceFrom s = none)
    (hheld : HeldSince k held) (h : .condition text ∈ splitFrom k held s) : StandsAlone text := by
  induction s generalizing k held with
  | nil => exact hheld.standsAlone (imbalanceAtEnd_eq_none_iff.mp hbalanced) h
  | cons c s ih =>
      obtain ⟨hc, hrest⟩ := imbalanceFrom_cons_eq_none_iff.mp hbalanced
      by_cases hinside : k.depth ≠ 0 ∧ (k.advance c).depth ≠ 0
      · rw [splitFrom_of_inside hinside.1 hinside.2] at h
        apply ih hrest ?_ h
        intro hdepth
        exact absurd hdepth hinside.2
      by_cases hplain : k.mark c = .plain
      · rw [splitFrom_of_plain hplain] at h
        exact ih hrest (hheld.advance_of_plain hplain) h
      -- What is left are the connectives of the level and the ends of its groups.
      have hquote := quote_of_mark_ne_plain hplain
      have hnext := heldSince_advance hplain
      rw [depth_advance] at hinside
      cases hmark : k.mark c with
      | plain => exact absurd hmark hplain
      | opening =>
          have hdepth : k.depth = 0 := by
            simpa [hmark] using hinside
          rw [splitFrom_of_opening hmark hdepth, List.mem_append] at h
          rcases h with h | h
          · exact hheld.standsAlone ⟨hquote, hdepth⟩ h
          · exact ih hrest hnext h
      | closing =>
          have hpositive : k.depth ≠ 0 := by
            intro hzero
            exact hc ⟨hmark, hzero⟩
          have hlast : k.depth - 1 = 0 := by
            simpa [hmark, hpositive] using hinside
          have hdepth : k.depth = 1 := by omega
          rw [splitFrom_of_closing hmark hdepth, List.mem_cons] at h
          rcases h with h | h
          · cases h
          · exact ih hrest hnext h
      | link l =>
          have hdepth : k.depth = 0 := by
            simpa [hmark] using hinside
          rw [splitFrom_of_link hmark hdepth, List.mem_append, List.mem_cons] at h
          rcases h with h | h | h
          · exact hheld.standsAlone ⟨hquote, hdepth⟩ h
          · cases h
          · exact ih hrest hnext h

/-- The condition tokens of a balanced text stand alone in it. -/
theorem standsAlone_of_mem_split (hbalanced : imbalance s = none) (h : .condition text ∈ split s) :
    StandsAlone text :=
  standsAlone_of_mem_splitFrom hbalanced heldSince_start h

theorem toLower_of_isBlank (h : Text.isBlank c = true) : c.toLower = c := by
  have hrange : ¬(c.val ≥ 'A'.val ∧ c.val ≤ 'Z'.val) := by
    rintro ⟨hlow, hhigh⟩
    simp only [Text.isBlank, Bool.or_eq_true, Bool.and_eq_true, beq_iff_eq,
      decide_eq_true_eq] at h
    simp only [ge_iff_le, UInt32.le_iff_toNat_le, Char.reduceVal, UInt32.reduceToNat,
      Char.toNat_val] at hlow hhigh
    omega
  rw [Char.toLower, dif_neg hrange]

section

variable {word rest : List Char}

theorem forall_not_blank_of_sameLetters (h : Text.sameLetters word leadWord = true) :
    ∀ c ∈ word, Text.isBlank c = false := by
  intro c hc
  cases hblank : Text.isBlank c with
  | false => rfl
  | true =>
      rw [Text.sameLetters, beq_iff_eq] at h
      have hletter : c.toLower ∈ leadWord.map Char.toLower := h ▸ List.mem_map_of_mem hc
      rw [toLower_of_isBlank hblank] at hletter
      have hletters : (leadWord.map Char.toLower).all (!Text.isBlank ·) = true := by decide
      have hvisible := List.all_eq_true.mp hletters c hletter
      rw [hblank] at hvisible
      cases hvisible

theorem startsOutside_of_startsBlank (h : startsBlank rest = true) :
    Text.StartsOutside (!Text.isBlank ·) rest := by
  cases rest with
  | nil => exact Text.startsOutside_nil
  | cons c rest =>
      rw [startsBlank] at h
      exact Text.startsOutside_cons (by simp [h])

theorem length_of_sameLetters (h : Text.sameLetters word leadWord = true) :
    leadWord.length = word.length := by
  rw [Text.sameLetters, beq_iff_eq] at h
  simpa using (congrArg List.length h).symm

/-- Whether a text begins with the lead word is settled by its first word. -/
theorem startsLead_eq (hword : ∀ c ∈ word, Text.isBlank c = false)
    (hrest : startsBlank rest = true) :
    (Text.sameLetters ((word ++ rest).take leadWord.length) leadWord &&
      startsBlank ((word ++ rest).drop leadWord.length)) = Text.sameLetters word leadWord := by
  rw [Bool.eq_iff_iff, Bool.and_eq_true]
  constructor
  · rintro ⟨hletters, hblank⟩
    have hfirst := forall_not_blank_of_sameLetters hletters
    have hrun : ∀ {s : List Char}, (∀ c ∈ s, Text.isBlank c = false) →
        ∀ c ∈ s, (!Text.isBlank c) = true := by
      intro s hs c hc
      rw [hs c hc]
      rfl
    have heq := Text.run_append_inj (hrun hfirst) (hrun hword)
      (startsOutside_of_startsBlank hblank) (startsOutside_of_startsBlank hrest)
      (List.take_append_drop leadWord.length (word ++ rest))
    rw [heq.1] at hletters
    exact hletters
  · intro hletters
    rw [length_of_sameLetters hletters, List.take_left, List.drop_left]
    exact ⟨hletters, hrest⟩

/-- A leading word `where` is no part of the filter, and any other first word is. -/
theorem filterBody_eq (hframed : Framed (word ++ rest))
    (hword : ∀ c ∈ word, Text.isBlank c = false) (hrest : startsBlank rest = true) :
    filterBody (word ++ rest) =
      if Text.sameLetters word leadWord then Text.trimStart rest else word ++ rest := by
  simp only [filterBody, hframed.trim_eq, startsLead_eq hword hrest]
  split
  · next hletters => rw [length_of_sameLetters hletters, List.drop_left]
  · rfl

end

end RecordFilter.Expression
