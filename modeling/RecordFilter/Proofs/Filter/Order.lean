import RecordFilter.Proofs.Outcome.Course
import RecordFilter.Query.OfFilter
import RecordFilter.Record.Matching

/-!
The order in which the conditions of a filter are met. Whatever connectives and groups there are, a
record is tried on them, and a query is made of them, one after the other in the order of the text,
up to the first one that fails; nothing else fails or reports.
-/

namespace RecordFilter

namespace Filter

theorem forM_relink {ε : Type} {check : Condition → Outcome ε Unit} {l : Connective}
    (h : ∀ c : Condition, check { c with link := l } = check c) (cs : List Condition) :
    forM (relink l cs) check = forM cs check := by
  cases cs with
  | nil => rfl
  | cons c cs => rw [relink, List.forM_cons, List.forM_cons, h]

section

variable {ε σ ρ γ : Type} {run : σ → Filter → Outcome ε ρ} {check : Condition → Outcome ε γ}
  {start : σ} {next : σ → Condition → γ → σ} {nextGroup : σ → Connective → ρ → σ}

/-- A run over the clauses of a level, with a run of its own for the clauses of a group, follows the
checks of the conditions, whatever it makes of their values. -/
theorem follows_of_run (hnil : ∀ soFar, (run soFar []).course = pure ())
    (hcondition : ∀ soFar c rest, run soFar (.condition c :: rest) =
      check c >>= fun a => run (next soFar c a) rest)
    (hgroup : ∀ soFar l inner rest, run soFar (.group l inner :: rest) =
      run start inner >>= fun a => run (nextGroup soFar l a) rest)
    (hlink : ∀ (c : Condition) l, check { c with link := l } = check c) (soFar : σ) (f : Filter) :
    (run soFar f).Follows check f.conditions := by
  unfold Outcome.Follows
  induction f using Filter.induction generalizing soFar with
  | nil =>
      rw [hnil, conditions_nil]
      rfl
  | condition c rest ih =>
      rw [hcondition, conditions_condition, Outcome.course_bind, List.forM_cons]
      simp only [ih]
      exact Outcome.course_bind_const _ _
  | group l inner rest ihInner ih =>
      have hrelink : (forM (relink l (conditions inner)) fun c => (check c).course) =
          (run start inner).course := by
        rw [ihInner start]
        exact forM_relink (fun c => congrArg Outcome.course (hlink c l)) _
      rw [hgroup, conditions_group, Outcome.course_bind, List.forM_append, hrelink]
      simp only [ih]
      exact Outcome.course_bind_const _ _

end

theorem follows_holdsFrom (r : Record) (soFar : Option Bool) (f : Filter) :
    (holdsFrom r soFar f).Follows (fun c : Condition => c.holdsOn r) f.conditions := by
  refine follows_of_run ?_ (holdsFrom_condition r) (holdsFrom_group r) (fun c l => rfl) soFar f
  intro soFar
  rw [holdsFrom_nil]
  rfl

theorem follows_holdsOn (r : Record) (f : Filter) :
    (f.holdsOn r).Follows (fun c : Condition => c.holdsOn r) f.conditions :=
  follows_holdsFrom r none f

end Filter

namespace Query

theorem follows_ofClauses (catalog : Catalog) (soFar : Option Query) (f : Filter) :
    (ofClauses catalog soFar f).Follows (Condition.query catalog) f.conditions := by
  refine Filter.follows_of_run ?_ (ofClauses_condition catalog) (ofClauses_group catalog)
    (fun c l => rfl) soFar f
  intro soFar
  rw [ofClauses_nil]
  rfl

/-- A tenant is added behind all conditions. -/
theorem follows_ofFilter (settings : Settings) (catalog : Catalog) (tenant : Option String)
    (f : Filter) :
    (ofFilter settings catalog tenant f).Follows (Condition.query catalog) f.conditions := by
  rw [Outcome.Follows, ofFilter, Outcome.course_bind, ← follows_ofClauses catalog none]
  rfl

end Query

end RecordFilter
