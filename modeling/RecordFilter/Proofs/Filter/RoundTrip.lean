import RecordFilter.Proofs.Filter.ReadBack

/-!
Filters that have been read, written and read once more. The one filter that does not come back
begins with a condition on a field that is taken for the word before a filter.
-/

namespace RecordFilter.Filter

open Expression

/-- The first clause is a condition on a field that is spelled like the word before a filter. -/
def startsWithLead : Filter → Bool
  | .condition c :: _ => Text.sameLetters c.field.toList leadWord
  | _ => false

theorem toList_written_condition_cons (c : Condition) (rest : Filter) :
    (written (.condition c :: rest)).toList =
      c.field.toList ++ ' ' :: (c.comparisonChars ++ (restWritten rest).toList) := by
  rw [toList_written_cons, clauseWritten, Condition.toList_written_eq_field_append,
    List.append_assoc, List.cons_append]

theorem filterBody_written_condition {c : Condition} {rest : Filter}
    (h : Legible (.condition c :: rest)) :
    filterBody (written (.condition c :: rest)).toList =
      if Text.sameLetters c.field.toList leadWord then
        c.comparisonChars ++ (restWritten rest).toList
      else (written (.condition c :: rest)).toList := by
  have hfield := (legible_condition_iff.mp (legible_cons_iff.mp h).1).field
  have hframed := h.framed
  rw [toList_written_condition_cons] at hframed ⊢
  rw [filterBody_eq hframed (fun d hd => (hfield.forall_mem d hd).1) rfl]
  obtain ⟨d, s, hchars, hd⟩ := c.exists_comparisonChars_eq
  have htrim : Text.trimStart (' ' :: (c.comparisonChars ++ (restWritten rest).toList)) =
      c.comparisonChars ++ (restWritten rest).toList := by
    rw [hchars, List.cons_append, Text.trimStart, List.dropWhile_cons_of_pos rfl,
      List.dropWhile_cons_of_neg (by simp [isBlank_of_isOperatorChar hd])]
  rw [htrim]

theorem filterBody_written {f : Filter} (h : f.Legible) (hlead : f.startsWithLead = false) :
    filterBody (written f).toList = (written f).toList := by
  rcases f with _ | ⟨c | ⟨l, inner⟩, rest⟩
  · rw [written]
    rfl
  · rw [filterBody_written_condition h, if_neg]
    rw [startsWithLead] at hlead
    simp [hlead]
  · have hframed := h.framed
    rw [toList_written_cons, toList_clauseWritten_group] at hframed ⊢
    simp only [filterBody, hframed.trim_eq]
    rfl

theorem Legible.ofText_written {f : Filter} (h : f.Legible) (hlead : f.startsWithLead = false) :
    ofText (written f) = .ok (resetLinks f) := by
  rw [ofText_eq_ok_iff, ofChars, filterBody_written h hlead]
  exact h.readLevel_written le_rfl

theorem split_comparisonChars {c : Condition} {rest : List Clause} (hc : c.Legible)
    (hrest : Legible rest) :
    split (c.comparisonChars ++ (restWritten rest).toList) =
      .condition c.comparisonChars :: restTokens rest := by
  have hpasses := hc.passes_comparisonChars Cursor.outermost_start
  rw [split, splitFrom_append_of_plain hpasses.plain,
    splitFrom_restWritten hrest (hpasses.outermost_after Cursor.outermost_start),
    List.append_nil, List.reverse_reverse, conditionToken_of_framed hc.framed_comparisonChars]
  rfl

/-- Behind the word that is taken off stands a condition without its field. -/
theorem Legible.ofText_written_of_lead {f : Filter} (h : f.Legible)
    (hlead : f.startsWithLead = true) : ∃ e, ofText (written f) = .error e := by
  obtain ⟨c, rest, rfl, hletters⟩ : ∃ c rest, f = .condition c :: rest ∧
      Text.sameLetters c.field.toList leadWord = true := by
    rcases f with _ | ⟨c | ⟨l, inner⟩, rest⟩
    · cases hlead
    · exact ⟨c, rest, rfl, hlead⟩
    · cases hlead
  obtain ⟨hclause, hrest⟩ := legible_cons_iff.mp h
  have hbody := filterBody_written_condition h
  rw [if_pos hletters] at hbody
  have hsplit := split_comparisonChars (legible_condition_iff.mp hclause) hrest
  obtain ⟨fuel, hfuel⟩ : ∃ fuel,
      (c.comparisonChars ++ (restWritten rest).toList).length = fuel + 1 := by
    obtain ⟨d, s, hchars, _⟩ := c.exists_comparisonChars_eq
    exact ⟨_, by rw [hchars, List.cons_append, List.length_cons]⟩
  cases hread : ofText (written (.condition c :: rest)) with
  | error e => exact ⟨e, rfl⟩
  | ok g =>
      rw [ofText_eq_ok_iff, ofChars, hbody, hfuel, readLevel_succ_eq_ok_iff, hsplit,
        readTokens_condition_eq_ok_iff] at hread
      obtain ⟨_, _, _, hcondition, _⟩ := hread
      rw [c.ofChars_comparisonChars] at hcondition
      cases hcondition

theorem legible_of_ofText {s : String} {f : Filter} (h : ofText s = .ok f) : f.Legible := by
  refine legible_of_forall_mem (forall_mem_of_ofText ?_ ?_ h)
  · intro s text c l hbalanced hmem hc
    have hlegible := Condition.legible_of_ofChars (standsAlone_of_mem_split hbalanced hmem) hc
    exact legible_condition_iff.mpr ⟨hlegible.field, hlegible.operand⟩
  · intro inner l hne hclauses
    exact legible_group_iff.mpr ⟨hne, legible_of_forall_mem hclauses⟩

/-- A filter that has been read is read back from what is written for it, up to the connectives
that join nothing, and fails to be read where it begins with the lead word. -/
theorem ofText_written_of_ofText (s : String) (f : Filter) (h : ofText s = .ok f) :
    (f.startsWithLead = true → ∃ e, ofText (written f) = .error e) ∧
      (f.startsWithLead = false → ofText (written f) = .ok (resetLinks f)) :=
  ⟨(legible_of_ofText h).ofText_written_of_lead, (legible_of_ofText h).ofText_written⟩

theorem ofText_written_of_ofText_mixed :
    (∃ f, ofText "& a = b'c\"d | (& x = 'y' & z.w !~ null)" = .ok f ∧
      written f = "a = b'c\"d | (x = 'y' & z.w !~ null)" ∧
      ofText (written f) = .ok (resetLinks f)) ∧
    ∃ f, ofText "where Where = 1" = .ok f ∧ ∃ e, ofText (written f) = .error e := by
  let inner : Filter :=
    [.condition ⟨"x", .equal, .text "y", .and⟩, .condition ⟨"z.w", .notLike, .null, .and⟩]
  let f : Filter := [.condition ⟨"a", .equal, .text "b'c\"d", .and⟩, .group .or inner]
  let g : Filter := [.condition ⟨"Where", .equal, .text "1", .or⟩]
  have hf : ofText "& a = b'c\"d | (& x = 'y' & z.w !~ null)" = .ok f := rfl
  have hg : ofText "where Where = 1" = .ok g := rfl
  refine ⟨⟨f, hf, ?_, ?_⟩, g, hg, ?_⟩
  · rfl
  · exact (ofText_written_of_ofText _ f hf).2 rfl
  · exact (ofText_written_of_ofText _ g hg).1 rfl

end RecordFilter.Filter
