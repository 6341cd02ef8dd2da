import Mathlib
import RecordFilter.Expression.Reader

/-!
The clauses of a filter that has been read: on every level each one comes from a token of a
balanced text, and no group is without clauses.
-/

namespace RecordFilter.Filter

open Expression

theorem forall_mem_of_readTokens {readInner : List Char → Except ReadError Filter}
    {tokens : List Token} {P : Clause → Prop}
    (condition : ∀ text c l, .condition text ∈ tokens → Condition.ofChars text = .ok c →
      P (.condition { c with link := l }))
    (group : ∀ text inner l, .group text ∈ tokens → readInner text = .ok inner → inner ≠ [] →
      P (.group l inner))
    {link : Connective} {f : Filter} (h : readTokens readInner link tokens = .ok f) :
    ∀ clause ∈ f, P clause := by
  induction tokens generalizing link f with
  | nil =>
      cases h
      simp
  | cons token rest ih =>
      have ihRest : ∀ {link : Connective} {clauses : Filter},
          readTokens readInner link rest = .ok clauses → ∀ clause ∈ clauses, P clause :=
        ih (fun text c l htext => condition text c l (List.mem_cons_of_mem _ htext))
          (fun text inner l htext => group text inner l (List.mem_cons_of_mem _ htext))
      cases token with
      | link l => exact ihRest h
      | condition text =>
          obtain ⟨c, clauses, hc, hclauses, rfl⟩ := readTokens_condition_eq_ok_iff.mp h
          rintro clause hclause
          rcases List.mem_cons.mp hclause with rfl | hclause
          · exact condition text c link List.mem_cons_self hc
          · exact ihRest hclauses clause hclause
      | group text =>
          obtain ⟨inner, clauses, hinner, hclauses, rfl⟩ := readTokens_group_eq_ok_iff.mp h
          intro clause hclause
          by_cases hempty : inner = []
          · rw [hempty] at hclause
            exact ihRest hclauses clause hclause
          · rw [if_neg (by simpa using hempty)] at hclause
            rcases List.mem_cons.mp hclause with rfl | hclause
            · exact group text inner link List.mem_cons_self hinner hempty
            · exact ihRest hclauses clause hclause

/-- Induction over a filter that has been read: what holds of the conditions of balanced texts, and
of a group when it holds of the clauses in it, holds of every clause. -/
theorem forall_mem_of_readLevel {P : Clause → Prop}
    (condition : ∀ s text c l, imbalance s = none → .condition text ∈ split s →
      Condition.ofChars text = .ok c → P (.condition { c with link := l }))
    (group : ∀ inner l, inner ≠ [] → (∀ clause ∈ inner, P clause) → P (.group l inner))
    {fuel : Nat} {s : List Char} {f : Filter} (h : readLevel fuel s = .ok f) :
    ∀ clause ∈ f, P clause := by
  induction fuel generalizing s f with
  | zero =>
      cases h
      simp
  | succ fuel ih =>
      obtain ⟨hbalanced, htokens⟩ := readLevel_succ_eq_ok_iff.mp h
      refine forall_mem_of_readTokens ?_ ?_ htokens
      · intro text c l htext hc
        exact condition s text c l hbalanced htext hc
      · intro text inner l _ hinner hne
        exact group inner l hne (ih hinner)

theorem ofText_eq_ok_iff {s : String} {f : Filter} :
    ofText s = .ok f ↔ ofChars s.toList = .ok f := by
  rw [ofText]
  cases ofChars s.toList <;> simp [Except.mapError]

theorem forall_mem_of_ofText {P : Clause → Prop}
    (condition : ∀ s text c l, imbalance s = none → .condition text ∈ split s →
      Condition.ofChars text = .ok c → P (.condition { c with link := l }))
    (group : ∀ inner l, inner ≠ [] → (∀ clause ∈ inner, P clause) → P (.group l inner))
    {s : String} {f : Filter} (h : ofText s = .ok f) : ∀ clause ∈ f, P clause :=
  forall_mem_of_readLevel condition group (ofText_eq_ok_iff.mp h)

end RecordFilter.Filter
