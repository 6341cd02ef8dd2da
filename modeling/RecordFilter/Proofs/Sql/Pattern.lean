import RecordFilter.Query.Statement
import RecordFilter.Record.Matching

/-!
Patterns of LIKE. The pattern of a search matches the texts that hold what is searched for, also
where that holds characters which stand for more than themselves in a pattern.
-/

namespace RecordFilter

namespace Sql

/-- `%` matches any run of characters and `_` any one. Behind a backslash each character matches
itself alone, as every other character does anywhere. -/
inductive Like : List Char → List Char → Prop where
  | nil : Like [] []
  | run {p t : List Char} (skipped : List Char) : Like p t → Like ('%' :: p) (skipped ++ t)
  | one {p t : List Char} (c : Char) : Like p t → Like ('_' :: p) (c :: t)
  | escaped {p t : List Char} (c : Char) : Like p t → Like ('\\' :: c :: p) (c :: t)
  | plain {p t : List Char} {c : Char} : c ≠ '%' → c ≠ '_' → c ≠ '\\' → Like p t →
      Like (c :: p) (c :: t)

variable {p s t : List Char} {c : Char}

theorem like_run_iff : Like ('%' :: p) t ↔ ∃ skipped rest, t = skipped ++ rest ∧ Like p rest := by
  constructor
  · intro h
    cases h with
    | run skipped hrest => exact ⟨skipped, _, rfl, hrest⟩
    | plain hne => exact absurd rfl hne
  · rintro ⟨skipped, rest, rfl, hrest⟩
    exact .run skipped hrest

theorem like_escaped_iff : Like ('\\' :: c :: p) t ↔ ∃ rest, t = c :: rest ∧ Like p rest := by
  constructor
  · intro h
    cases h with
    | escaped _ hrest => exact ⟨_, rfl, hrest⟩
    | plain _ _ hne => exact absurd rfl hne
  · rintro ⟨rest, rfl, hrest⟩
    exact .escaped c hrest

theorem like_plain_iff (hrun : c ≠ '%') (hone : c ≠ '_') (hescape : c ≠ '\\') :
    Like (c :: p) t ↔ ∃ rest, t = c :: rest ∧ Like p rest := by
  constructor
  · intro h
    cases h with
    | run => exact absurd rfl hrun
    | one => exact absurd rfl hone
    | escaped => exact absurd rfl hescape
    | plain _ _ _ hrest => exact ⟨_, rfl, hrest⟩
  · rintro ⟨rest, rfl, hrest⟩
    exact .plain hrun hone hescape hrest

/-- One character of an escaped text matches that character, whichever of the two forms it has. -/
theorem like_escapePattern_cons_append :
    Like (escapePattern (c :: s) ++ p) t ↔
      ∃ rest, t = c :: rest ∧ Like (escapePattern s ++ p) rest := by
  rw [escapePattern_cons, List.append_assoc]
  by_cases h : c = '\\' ∨ c = '%' ∨ c = '_'
  · rw [if_pos h]
    exact like_escaped_iff
  · rw [if_neg h]
    obtain ⟨hescape, hrun, hone⟩ : c ≠ '\\' ∧ c ≠ '%' ∧ c ≠ '_' := by
      simpa only [not_or] using h
    exact like_plain_iff hrun hone hescape

theorem like_escapePattern_append :
    Like (escapePattern s ++ p) t ↔ ∃ rest, t = s ++ rest ∧ Like p rest := by
  induction s generalizing t with
  | nil =>
      constructor
      · intro h
        exact ⟨t, rfl, h⟩
      · rintro ⟨rest, rfl, hrest⟩
        exact hrest
  | cons c s ih =>
      rw [like_escapePattern_cons_append]
      constructor
      · rintro ⟨_, rfl, hlike⟩
        obtain ⟨rest, rfl, hrest⟩ := ih.mp hlike
        exact ⟨rest, rfl, hrest⟩
      · rintro ⟨rest, rfl, hrest⟩
        exact ⟨s ++ rest, rfl, ih.mpr ⟨rest, rfl, hrest⟩⟩

theorem like_end_iff : Like ['%'] t := by
  have h : Like ['%'] (t ++ []) := .run t .nil
  rwa [List.append_nil] at h

theorem like_containsPattern_iff {v : String} :
    Like (containsPattern v).toList t ↔ v.toList <:+: t := by
  rw [containsPattern, String.toList_ofList, List.cons_append, like_run_iff]
  constructor
  · rintro ⟨before, _, rfl, hlike⟩
    obtain ⟨after, rfl, -⟩ := like_escapePattern_append.mp hlike
    exact ⟨before, after, List.append_assoc before v.toList after⟩
  · rintro ⟨before, after, rfl⟩
    refine ⟨before, v.toList ++ after, List.append_assoc before v.toList after, ?_⟩
    exact like_escapePattern_append.mpr ⟨after, rfl, like_end_iff⟩

end Sql

namespace Condition

variable {r : Record} {field v t : String} {link : Connective}

theorem result_holdsOn_like (hfield : r.field? field = some (.text t)) :
    (holdsOn ⟨field, .like, .text v, link⟩ r).result =
      .ok (Text.occursIn v.toList t.toList) := by
  rw [result_holdsOn hfield]
  rfl

theorem result_holdsOn_notLike (hfield : r.field? field = some (.text t)) :
    (holdsOn ⟨field, .notLike, .text v, link⟩ r).result =
      .ok !Text.occursIn v.toList t.toList := by
  rw [result_holdsOn hfield]
  rfl

end Condition

namespace Query

open Sql

theorem toSql_contains (field v : String) (negated : Bool) :
    (contains field v negated).toSql =
      ⟨identifier field ++ (if negated then " NOT LIKE $1" else " LIKE $1"),
        [.text (containsPattern v)]⟩ := by
  have hfirst : placeholder 1 = "$1" := rfl
  rw [toSql, fragments, assemble]
  simp only [assembleFrom, hfirst]
  cases negated <;> rfl

/-- The pattern of a search matches exactly the texts that hold what is searched for, and a record
with such a text in its field is what the condition holds on; a negated search is the negation on
both sides. -/
theorem toSql_contains_like (r : Record) (field v t : String) (link : Connective)
    (hfield : r.field? field = some (.text t)) :
    let pattern := "%" ++ String.ofList (escapePattern v.toList) ++ "%"
    (contains field v false).toSql = ⟨identifier field ++ " LIKE $1", [.text pattern]⟩ ∧
      (contains field v true).toSql = ⟨identifier field ++ " NOT LIKE $1", [.text pattern]⟩ ∧
      (Like pattern.toList t.toList ↔ v.toList <:+: t.toList) ∧
      (∃ found, (Condition.holdsOn ⟨field, .like, .text v, link⟩ r).result = .ok found ∧
        (found = true ↔ Like pattern.toList t.toList)) ∧
      ∃ missed, (Condition.holdsOn ⟨field, .notLike, .text v, link⟩ r).result = .ok missed ∧
        (missed = true ↔ ¬ Like pattern.toList t.toList) := by
  intro pattern
  have hpattern : pattern = containsPattern v := by
    rw [← String.toList_inj]
    simp [pattern, containsPattern]
  have hlike : Like pattern.toList t.toList ↔ v.toList <:+: t.toList := by
    rw [hpattern]
    exact like_containsPattern_iff
  refine ⟨?_, ?_, hlike, ?_, ?_⟩
  · rw [hpattern]
    exact toSql_contains field v false
  · rw [hpattern]
    exact toSql_contains field v true
  · refine ⟨_, Condition.result_holdsOn_like hfield, ?_⟩
    rw [hlike, Text.occursIn_iff]
  · refine ⟨_, Condition.result_holdsOn_notLike hfield, ?_⟩
    rw [hlike, ← Text.occursIn_iff, Bool.not_eq_true', Bool.not_eq_true]

/-- A search for wildcards with a backslash next to the closing one. -/
theorem toSql_contains_like_wildcards :
    let r := Record.ofList [("note", .text "5%_\\ off")]
    r.field? "note" = some (.text "5%_\\ off") ∧
      (contains "note" "%_\\" true).toSql =
        ⟨"\"note\" NOT LIKE $1", [.text "%\\%\\_\\\\%"]⟩ ∧
      Like "%\\%\\_\\\\%".toList "5%_\\ off".toList ∧
      (Condition.holdsOn ⟨"note", .notLike, .text "%_\\", .or⟩ r).result = .ok false := by
  intro r
  have hfield : r.field? "note" = some (.text "5%_\\ off") := rfl
  obtain ⟨-, hsql, hlike, -, missed, hresult, hmissed⟩ :=
    toSql_contains_like r "note" "%_\\" "5%_\\ off" .or hfield
  have hmatch := hlike.mpr ⟨['5'], [' ', 'o', 'f', 'f'], rfl⟩
  have hfalse : missed = false := Bool.eq_false_iff.mpr fun h => hmissed.mp h hmatch
  exact ⟨hfield, hsql, hmatch, hfalse ▸ hresult⟩

end Query

end RecordFilter
