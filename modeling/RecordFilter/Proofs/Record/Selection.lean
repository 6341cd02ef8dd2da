import Mathlib.Data.List.Forall2
import RecordFilter.Proofs.Filter.Order

/-!
A filter on many records. Each record gets a verdict of its own, also behind one that the filter
cannot be tried on; a selection takes the records that pass, unless there is one of that kind.
-/

namespace RecordFilter

open Outcome

variable {ρ : Type}

/-- The record of a verdict that lets it pass. -/
def Verdict.passed? : Verdict ρ → Option ρ
  | pass x => some x
  | _ => none

namespace Filter

variable {view : ρ → Record} {f : Filter} {x : ρ} {v : Verdict ρ} {records kept : List ρ}

/-- The verdict that is right for a record, by what comes of trying the filter on it. -/
inductive Judges (view : ρ → Record) (f : Filter) (x : ρ) : Verdict ρ → Prop where
  | pass (holds : (f.holdsOn (view x)).result = .ok true) : Judges view f x (.pass x)
  | skip (fails : (f.holdsOn (view x)).result = .ok false) : Judges view f x (.skip x)
  | error {e : MatchError} (untried : (f.holdsOn (view x)).result = .error e) :
      Judges view f x (.error x e)

theorem judges_verdict (view : ρ → Record) (f : Filter) (x : ρ) :
    Judges view f x (verdict view f x) := by
  unfold verdict
  split
  · next h => exact .pass h
  · next h => exact .skip h
  · next h => exact .error h

theorem Judges.eq_verdict (h : Judges view f x v) : v = verdict view f x := by
  cases h with
  | pass h => rw [verdict, h]
  | skip h => rw [verdict, h]
  | error h => rw [verdict, h]

theorem forall₂_judges_iff {vs : List (Verdict ρ)} :
    List.Forall₂ (Judges view f) records vs ↔ vs = verdicts view f records := by
  constructor
  · intro h
    induction h with
    | nil => rfl
    | cons hfirst _ ih => rw [ih, hfirst.eq_verdict, verdicts, verdicts, List.map_cons]
  · rintro rfl
    induction records with
    | nil => exact .nil
    | cons x records ih => exact .cons (judges_verdict view f x) ih

theorem verdicts_cons (view : ρ → Record) (f : Filter) (x : ρ) (records : List ρ) :
    verdicts view f (x :: records) = verdict view f x :: verdicts view f records :=
  rfl

theorem passed?_verdict {b : Bool} (h : (f.holdsOn (view x)).result = .ok b) :
    (verdict view f x).passed? = if b then some x else none := by
  cases b with
  | true => rw [← (Judges.pass h).eq_verdict]; rfl
  | false => rw [← (Judges.skip h).eq_verdict]; rfl

theorem selectFrom_cons (view : ρ → Record) (f : Filter) (x : ρ) (records : List ρ) :
    selectFrom view f (x :: records) =
      f.holdsOn (view x) >>= fun b =>
        (fun rest => if b then x :: rest else rest) <$> selectFrom view f records := by
  rw [selectFrom]
  simp only [map_eq_pure_bind]

/-- The records are tried one after the other, up to the first that the filter cannot be tried
on. -/
theorem follows_selectFrom (view : ρ → Record) (f : Filter) (records : List ρ) :
    (selectFrom view f records).Follows (fun x => f.holdsOn (view x)) records := by
  unfold Follows
  induction records with
  | nil => rfl
  | cons x records ih =>
      have hcourse : ∀ b : Bool,
          ((fun rest => if b then x :: rest else rest) <$> selectFrom view f records).course =
            (selectFrom view f records).course := by
        intro b
        rw [course, course, ← comp_map]
      rw [selectFrom_cons, course_bind, List.forM_cons]
      simp only [hcourse, ih]
      exact course_bind_const _ _

theorem eq_passed_of_selectFrom (h : (selectFrom view f records).result = .ok kept) :
    kept = (verdicts view f records).filterMap Verdict.passed? := by
  induction records generalizing kept with
  | nil =>
      cases h
      rfl
  | cons x records ih =>
      rw [selectFrom_cons, result_bind_eq_ok_iff] at h
      obtain ⟨b, hb, hrest⟩ := h
      rw [map_eq_pure_bind, result_bind_eq_ok_iff] at hrest
      obtain ⟨rest, hrest, hkept⟩ := hrest
      cases hkept
      rw [verdicts_cons, List.filterMap_cons, passed?_verdict hb, ih hrest]
      cases b <;> rfl

/-- Without clauses every record passes, so that trying them all comes to the same. -/
theorem select_eq_selectFrom (view : ρ → Record) (f : Filter) (records : List ρ) :
    select view f records = selectFrom view f records := by
  cases f with
  | cons clause rest => rfl
  | nil =>
      change pure records = _
      induction records with
      | nil => rfl
      | cons x records ih =>
          rw [selectFrom_cons, holdsOn_nil, pure_bind, ← ih]
          rfl

/-- Each record gets the verdict that is right for it, in the order of the records. A selection is
made exactly where the filter can be tried on every record, and has those that pass, in their order;
otherwise it fails as the filter does on the first record that it cannot be tried on. That a filter
without clauses is not tried at all changes nothing. -/
theorem select_outcome (view : ρ → Record) (f : Filter) (records : List ρ) :
    (∀ vs, List.Forall₂ (Judges view f) records vs ↔ vs = verdicts view f records) ∧
    ((∃ kept, (select view f records).result = .ok kept) ↔
      ∀ x ∈ records, ∃ b, (f.holdsOn (view x)).result = .ok b) ∧
    (∀ kept, (select view f records).result = .ok kept →
      kept = (verdicts view f records).filterMap Verdict.passed?) ∧
    (∀ e, (select view f records).result = .error e ↔
      ∃ before x after, records = before ++ x :: after ∧
        (∀ y ∈ before, ∃ b, (f.holdsOn (view y)).result = .ok b) ∧
        (f.holdsOn (view x)).result = .error e) ∧
    select view f records = selectFrom view f records := by
  have hfollows := follows_selectFrom view f records
  have hselect := select_eq_selectFrom view f records
  refine ⟨fun vs => forall₂_judges_iff, ?_, ?_, ?_, hselect⟩
  · rw [hselect]
    exact hfollows.exists_ok_iff
  · intro kept h
    rw [hselect] at h
    exact eq_passed_of_selectFrom h
  · intro e
    rw [hselect]
    exact hfollows.eq_error_iff

/-- Records before and behind one that lacks the field, and without it. -/
theorem select_outcome_behind_error :
    let f : Filter := [.condition ⟨"state", .equal, .text "on", .or⟩]
    let off := Record.ofList [("state", .text "off")]
    let on := Record.ofList [("state", .text "on")]
    let lacking := Record.ofList []
    (verdicts id f [on, lacking, off, on] =
        [.pass on, .error lacking (.missingField "state"), .skip off, .pass on] ∧
      (f.select id [on, lacking, off, on]).result = .error (.missingField "state")) ∧
    ∃ kept, (f.select id [on, off, on]).result = .ok kept ∧ kept = [on, on] := by
  intro f off on lacking
  have hoff : (f.holdsOn off).result = .ok false := rfl
  have hon : (f.holdsOn on).result = .ok true := rfl
  have hlacking : (f.holdsOn lacking).result = .error (.missingField "state") := rfl
  obtain ⟨hverdicts, -, -, herror, -⟩ := select_outcome id f [on, lacking, off, on]
  obtain ⟨hall, hsucceeds, hkept, -, -⟩ := select_outcome id f [on, off, on]
  refine ⟨⟨?_, ?_⟩, ?_⟩
  · exact ((hverdicts _).mp (.cons (.pass hon) (.cons (.error hlacking)
      (.cons (.skip hoff) (.cons (.pass hon) .nil))))).symm
  · exact (herror _).mpr ⟨[on], lacking, [off, on], rfl,
      List.forall_mem_singleton.mpr ⟨true, hon⟩, hlacking⟩
  · have htried : ∀ x ∈ [on, off, on], ∃ b, (f.holdsOn (id x)).result = .ok b := by
      simp only [List.forall_mem_cons]
      exact ⟨⟨true, hon⟩, ⟨false, hoff⟩, ⟨true, hon⟩, List.forall_mem_nil _⟩
    obtain ⟨kept, hselect⟩ := hsucceeds.mpr htried
    refine ⟨kept, hselect, ?_⟩
    rw [hkept kept hselect, ← (hall _).mp (.cons (.pass hon) (.cons (.skip hoff)
      (.cons (.pass hon) .nil)))]
    rfl

end Filter

end RecordFilter
