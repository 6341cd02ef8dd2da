import RecordFilter.Proofs.Filter.Groups
import RecordFilter.Proofs.Filter.Legible

/-!
What is written for a filter is read back as that filter, up to the connectives that join nothing.
The tokens of a written level are its clauses with their connectives between them.
-/

namespace RecordFilter.Filter

open Expression
open Text (Framed)

mutual

/-- The filter with `|` as the connective of the first clause on every level. -/
def resetLinks : Filter → Filter
  | [] => []
  | clause :: rest => clauseReset .or clause :: restReset rest

def restReset : List Clause → List Clause
  | [] => []
  | clause :: rest => clauseReset clause.link clause :: restReset rest

/-- The clause joined by `l`, and the levels inside it reset. -/
def clauseReset (l : Connective) : Clause → Clause
  | .condition c => .condition { c with link := l }
  | .group _ inner => .group l (resetLinks inner)

end

/-- Every condition is read back from what is written for it, and no group reads as nothing. -/
structure Legible (f : Filter) : Prop where
  groups : f.NoEmptyGroup
  conditions : ∀ c ∈ f.conditions, c.Legible

theorem legible_nil : Legible [] :=
  ⟨trivial, by simp [conditions_nil]⟩

theorem legible_cons_iff {clause : Clause} {rest : Filter} :
    Legible (clause :: rest) ↔ Legible [clause] ∧ Legible rest := by
  constructor
  · rintro ⟨hgroups, hconditions⟩
    rw [NoEmptyGroup] at hgroups
    rw [conditions, List.forall_mem_append] at hconditions
    refine ⟨⟨⟨hgroups.1, trivial⟩, ?_⟩, ⟨hgroups.2, hconditions.2⟩⟩
    rw [conditions, conditions_nil, List.append_nil]
    exact hconditions.1
  · rintro ⟨⟨hclause, hconditions⟩, hrest⟩
    rw [NoEmptyGroup] at hclause
    rw [conditions, conditions_nil, List.append_nil] at hconditions
    refine ⟨⟨hclause.1, hrest.groups⟩, ?_⟩
    rw [conditions, List.forall_mem_append]
    exact ⟨hconditions, hrest.conditions⟩

theorem Legible.of_mem {f : Filter} {clause : Clause} (h : f.Legible) (hmem : clause ∈ f) :
    Legible [clause] := by
  induction f with
  | nil => cases hmem
  | cons next rest ih =>
      obtain ⟨hnext, hrest⟩ := legible_cons_iff.mp h
      rcases List.mem_cons.mp hmem with rfl | hmem
      · exact hnext
      · exact ih hrest hmem

theorem legible_of_forall_mem {f : Filter} (h : ∀ clause ∈ f, Legible [clause]) : f.Legible := by
  induction f with
  | nil => exact legible_nil
  | cons clause rest ih =>
      rw [List.forall_mem_cons] at h
      exact legible_cons_iff.mpr ⟨h.1, ih h.2⟩

theorem legible_condition_iff {c : Condition} : Legible [.condition c] ↔ c.Legible := by
  constructor
  · intro h
    exact h.conditions c (by simp [conditions_condition])
  · intro h
    refine ⟨⟨trivial, trivial⟩, ?_⟩
    simpa [conditions_condition, conditions_nil] using h

theorem legible_group_iff {l : Connective} {inner : Filter} :
    Legible [.group l inner] ↔ inner ≠ [] ∧ inner.Legible := by
  have hconditions : (∀ c ∈ conditions [.group l inner], c.Legible) ↔
      ∀ c ∈ conditions inner, c.Legible := by
    rw [conditions_group, conditions_nil, List.append_nil]
    exact forall_mem_relink_iff fun c =>
      ⟨fun h => ⟨h.field, h.operand⟩, fun h => ⟨h.field, h.operand⟩⟩
  constructor
  · intro h
    have hgroups := noEmptyGroup_group_iff.mp h.groups
    refine ⟨?_, hgroups.1.2, hconditions.mp h.conditions⟩
    rintro rfl
    exact hgroups.1.1 conditions_nil
  · rintro ⟨hne, hinner⟩
    have hgroups := And.intro (conditions_ne_nil hinner.groups hne) hinner.groups
    exact ⟨noEmptyGroup_group_iff.mpr ⟨hgroups, trivial⟩, hconditions.mpr hinner.conditions⟩

/-! The written text. -/

theorem toList_written_cons (clause : Clause) (rest : Filter) :
    (written (clause :: rest)).toList =
      (clauseWritten clause).toList ++ (restWritten rest).toList := by
  rw [written, String.toList_append]

theorem toList_restWritten_nil : (restWritten []).toList = [] := by
  rw [restWritten]
  rfl

theorem toList_restWritten_cons (clause : Clause) (rest : Filter) :
    (restWritten (clause :: rest)).toList =
      [' '] ++ ([clause.link.symbol] ++ ([' '] ++
        ((clauseWritten clause).toList ++ (restWritten rest).toList))) := by
  rw [restWritten, writtenLink]
  simp

theorem toList_clauseWritten_group (l : Connective) (inner : Filter) :
    (clauseWritten (.group l inner)).toList = '(' :: (written inner).toList ++ [')'] := by
  rw [clauseWritten]
  simp

theorem passes_gap {k : Cursor} (hk : k.Outermost) : k.Passes [' '] :=
  Cursor.passes_of_not_delimiter hk.quote (List.forall_mem_singleton.mpr rfl)

theorem balanced_cons {clause : Clause} {rest : Filter}
    (hclause : Balanced (clauseWritten clause).toList)
    (hrest : Balanced (restWritten rest).toList) :
    Balanced (written (clause :: rest)).toList ∧
      Balanced (restWritten (clause :: rest)).toList := by
  have hboth := hclause.append hrest
  have hgap : Balanced [' '] := balanced_of_passes fun _ => passes_gap
  rw [toList_written_cons, toList_restWritten_cons]
  exact ⟨hboth, hgap.append ((balanced_symbol _).append (hgap.append hboth))⟩

theorem Legible.balanced {f : Filter} (h : f.Legible) :
    Balanced (written f).toList ∧ Balanced (restWritten f).toList := by
  induction f using Filter.induction with
  | nil =>
      rw [written, toList_restWritten_nil]
      exact ⟨balanced_nil, balanced_nil⟩
  | condition c rest ih =>
      obtain ⟨hclause, hrest⟩ := legible_cons_iff.mp h
      refine balanced_cons ?_ (ih hrest).2
      rw [clauseWritten]
      exact balanced_of_passes fun _ => (legible_condition_iff.mp hclause).passes_written
  | group l inner rest ihInner ih =>
      obtain ⟨hclause, hrest⟩ := legible_cons_iff.mp h
      refine balanced_cons ?_ (ih hrest).2
      rw [toList_clauseWritten_group]
      exact balanced_parenthesised (ihInner (legible_group_iff.mp hclause).2).1.imbalance_eq_none

theorem Legible.framed_clauseWritten {clause : Clause} (h : Legible [clause]) :
    Framed (clauseWritten clause).toList := by
  cases clause with
  | condition c =>
      rw [clauseWritten]
      exact (legible_condition_iff.mp h).framed_written
  | group l inner =>
      rw [toList_clauseWritten_group]
      exact ⟨⟨'(', _, rfl, rfl⟩, ⟨'(' :: (written inner).toList, ')', rfl, rfl⟩⟩

theorem Legible.framed {clause : Clause} {rest : Filter} (h : Legible (clause :: rest)) :
    Framed (written (clause :: rest)).toList := by
  induction rest generalizing clause with
  | nil =>
      rw [toList_written_cons, toList_restWritten_nil, List.append_nil]
      exact h.framed_clauseWritten
  | cons next rest ih =>
      obtain ⟨hclause, hrest⟩ := legible_cons_iff.mp h
      have hnext := ih hrest
      rw [toList_written_cons] at hnext
      have hboth := hclause.framed_clauseWritten.append (m := [' ', next.link.symbol, ' ']) hnext
      rw [List.append_assoc] at hboth
      rw [toList_written_cons, toList_restWritten_cons]
      exact hboth

/-! The tokens of the written text. -/

def clauseToken : Clause → Token
  | .condition c => .condition c.written.toList
  | .group _ inner => .group (written inner).toList

def restTokens : List Clause → List Token
  | [] => []
  | clause :: rest => .link clause.link :: clauseToken clause :: restTokens rest

variable {k : Cursor} {held : List Char}

/-- Behind a connective only the gap is held when the next clause begins. -/
theorem splitFrom_clauseWritten {clause : Clause} {s : List Char} {tokens : List Token}
    (hclause : Legible [clause]) (hk : k.Outermost) (hheld : ∀ c ∈ held, Text.isBlank c = true)
    (hs : ∀ k held, Cursor.Outermost k →
      splitFrom k held s = conditionToken held.reverse ++ tokens) :
    splitFrom k held ((clauseWritten clause).toList ++ s) = clauseToken clause :: tokens := by
  have hreverse : ∀ c ∈ held.reverse, Text.isBlank c = true := by simpa using hheld
  cases clause with
  | condition c =>
      have hc := legible_condition_iff.mp hclause
      have hpasses := hc.passes_written hk
      rw [clauseWritten, splitFrom_append_of_plain hpasses.plain,
        hs _ _ (hpasses.outermost_after hk), List.reverse_append, List.reverse_reverse,
        conditionToken_blank_append hreverse, conditionToken_of_framed hc.framed_written]
      rfl
  | group l inner =>
      rw [toList_clauseWritten_group, List.cons_append, List.cons_append, List.append_assoc,
        List.singleton_append,
        splitFrom_group hk (legible_group_iff.mp hclause).2.balanced.1.imbalance_eq_none,
        conditionToken_of_forall hreverse, hs _ _ Cursor.outermost_mk]
      rfl

theorem splitFrom_restWritten {rest : List Clause} (h : Legible rest) (hk : k.Outermost) :
    splitFrom k held (restWritten rest).toList =
      conditionToken held.reverse ++ restTokens rest := by
  induction rest generalizing k held with
  | nil => rw [toList_restWritten_nil, splitFrom, restTokens, List.append_nil]
  | cons clause rest ih =>
      obtain ⟨hclause, hrest⟩ := legible_cons_iff.mp h
      have hbefore := passes_gap hk
      have hbehind : Cursor.Passes ⟨none, some clause.link.symbol, 0⟩ [' '] :=
        passes_gap Cursor.outermost_mk
      have hgap : ∀ c ∈ [' '], Text.isBlank c = true := List.forall_mem_singleton.mpr rfl
      have hnext := splitFrom_clauseWritten hclause
        (hbehind.outermost_after Cursor.outermost_mk) hgap fun _ _ => ih hrest
      rw [toList_restWritten_cons, splitFrom_append_of_plain hbefore.plain,
        List.singleton_append, splitFrom_symbol (hbefore.outermost_after hk),
        splitFrom_append_of_plain hbehind.plain]
      change conditionToken (' ' :: held).reverse ++ _ :: splitFrom _ [' '] _ = _
      rw [hnext, List.reverse_cons, conditionToken_append_blank hgap]
      rfl

theorem Legible.split_written {clause : Clause} {rest : Filter} (h : Legible (clause :: rest)) :
    split (written (clause :: rest)).toList = clauseToken clause :: restTokens rest := by
  obtain ⟨hclause, hrest⟩ := legible_cons_iff.mp h
  rw [split, toList_written_cons]
  exact splitFrom_clauseWritten hclause Cursor.outermost_start (by simp)
    (fun _ _ => splitFrom_restWritten hrest)

/-! Reading the tokens. -/

variable {readInner : List Char → Except ReadError Filter}

theorem readTokens_clauseToken {clause : Clause} {tokens : List Token} {l : Connective}
    {clauses : Filter} (hclause : Legible [clause])
    (hinner : ∀ k inner, clause = .group k inner →
      readInner (written inner).toList = .ok (resetLinks inner))
    (htokens : readTokens readInner .or tokens = .ok clauses) :
    readTokens readInner l (clauseToken clause :: tokens) =
      .ok (clauseReset l clause :: clauses) := by
  cases clause with
  | condition c =>
      have hc := legible_condition_iff.mp hclause
      exact readTokens_condition_eq_ok_iff.mpr
        ⟨_, clauses, hc.ofChars_written, htokens, by rw [clauseReset]⟩
  | group k inner =>
      refine readTokens_group_eq_ok_iff.mpr
        ⟨resetLinks inner, clauses, hinner k inner rfl, htokens, ?_⟩
      have hne : resetLinks inner ≠ [] := by
        obtain ⟨next, rest, rfl⟩ := List.exists_cons_of_ne_nil (legible_group_iff.mp hclause).1
        rw [resetLinks]
        exact List.cons_ne_nil _ _
      rw [if_neg (by simpa using hne), clauseReset]

theorem readTokens_restTokens {rest : List Clause} (h : Legible rest)
    (hinner : ∀ k inner, .group k inner ∈ rest →
      readInner (written inner).toList = .ok (resetLinks inner)) :
    readTokens readInner .or (restTokens rest) = .ok (restReset rest) := by
  induction rest with
  | nil =>
      rw [restReset]
      rfl
  | cons clause rest ih =>
      obtain ⟨hclause, hrest⟩ := legible_cons_iff.mp h
      rw [restTokens, readTokens, restReset]
      refine readTokens_clauseToken hclause ?_ ?_
      · rintro k inner rfl
        exact hinner k inner List.mem_cons_self
      · exact ih hrest fun k inner hmem => hinner k inner (List.mem_cons_of_mem _ hmem)

theorem length_written_lt_restWritten {l : Connective} {inner : Filter} {rest : List Clause}
    (h : .group l inner ∈ rest) :
    (written inner).toList.length < (restWritten rest).toList.length := by
  induction rest with
  | nil => cases h
  | cons clause rest ih =>
      rw [toList_restWritten_cons]
      simp only [List.length_append, List.length_singleton]
      rcases List.mem_cons.mp h with rfl | h
      · rw [toList_clauseWritten_group]
        simp only [List.length_append, List.length_cons, List.length_nil]
        omega
      · have hrest := ih h
        omega

/-- The text of a group is shorter than that of its level. -/
theorem length_written_lt {l : Connective} {inner f : Filter} (h : .group l inner ∈ f) :
    (written inner).toList.length < (written f).toList.length := by
  cases f with
  | nil => cases h
  | cons clause rest =>
      rw [toList_written_cons, List.length_append]
      rcases List.mem_cons.mp h with rfl | h
      · rw [toList_clauseWritten_group]
        simp only [List.length_append, List.length_cons, List.length_nil]
        omega
      · have hrest := length_written_lt_restWritten h
        omega

/-- A legible filter is read back level by level. -/
theorem Legible.readLevel_written {f : Filter} {fuel : Nat} (h : f.Legible)
    (hfuel : (written f).toList.length ≤ fuel) :
    readLevel fuel (written f).toList = .ok (resetLinks f) := by
  induction fuel generalizing f with
  | zero =>
      cases f with
      | nil =>
          rw [resetLinks]
          rfl
      | cons clause rest =>
          have hpositive := List.length_pos_iff.mpr h.framed.ne_nil
          omega
  | succ fuel ih =>
      refine readLevel_succ_eq_ok_iff.mpr ⟨h.balanced.1.imbalance_eq_none, ?_⟩
      have hinner : ∀ k inner, .group k inner ∈ f →
          readLevel fuel (written inner).toList = .ok (resetLinks inner) := by
        intro k inner hmem
        have hshorter := length_written_lt hmem
        exact ih (legible_group_iff.mp (h.of_mem hmem)).2 (by omega)
      cases f with
      | nil =>
          rw [resetLinks, written]
          rfl
      | cons clause rest =>
          obtain ⟨hclause, hrest⟩ := legible_cons_iff.mp h
          rw [h.split_written, resetLinks]
          refine readTokens_clauseToken hclause ?_ (readTokens_restTokens hrest ?_)
          · rintro k inner rfl
            exact hinner k inner List.mem_cons_self
          · intro k inner hmem
            exact hinner k inner (List.mem_cons_of_mem _ hmem)

end RecordFilter.Filter
