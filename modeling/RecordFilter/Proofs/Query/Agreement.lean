import Mathlib
import RecordFilter.Record.Matching
import RecordFilter.Proofs.Filter.Groups
import RecordFilter.Proofs.Query.Clauses

/-!
Queries against records: the query of a filter has the truth value that the filter has on a record,
once its leaves have the truth values of their conditions.
-/

namespace RecordFilter

namespace Query

/-- The truth value of a query whose leaves have the given truth values. -/
def holdsUnder (truth : Query → Bool) : Query → Bool
  | all => true
  | and left right => holdsUnder truth left && holdsUnder truth right
  | or left right => holdsUnder truth left || holdsUnder truth right
  | leaf => truth leaf

variable {truth : Query → Bool}

theorem holdsUnder_join {l : Connective} {p q : Query} (hp : p ≠ all) :
    (p.join l q).holdsUnder truth = l.eval (p.holdsUnder truth) (q.holdsUnder truth) := by
  cases l with
  | and => rw [join, both_of_ne_all hp]; rfl
  | or => rw [join, either_of_ne_all hp]; rfl

/-- The two folds take the same step. -/
theorem holdsUnder_joinNext {soFar : Option Query} {l : Connective} {q : Query}
    (hsoFar : ∀ p, soFar = some p → p ≠ all) :
    (joinNext soFar l q).holdsUnder truth =
      Filter.joinResult (soFar.map (holdsUnder truth)) l (q.holdsUnder truth) := by
  cases soFar with
  | none => rfl
  | some p => exact holdsUnder_join (hsoFar p rfl)

theorem IsLeaf.holdsUnder_eq {q : Query} (h : q.IsLeaf) : q.holdsUnder truth = truth q := by
  cases q with
  | all => exact h.elim
  | and left right => exact h.elim
  | or left right => exact h.elim
  | _ => rfl

/-- From a query and a verdict that agree so far, the clauses that follow lead to ones that
agree. -/
theorem holdsUnder_ofClauses {catalog : Catalog} {r : Record} {f : Filter}
    {soFar found : Option Query} {b : Bool} (hsoFar : ∀ p, soFar = some p → p ≠ all)
    (hgroups : f.NoEmptyGroup)
    (htruth : ∀ c ∈ f.conditions, ∀ leaf, (c.query catalog).result = .ok leaf →
      (c.holdsOn r).result = .ok (truth leaf))
    (hfound : (ofClauses catalog soFar f).result = .ok found)
    (hholds : (Filter.holdsFrom r (soFar.map (holdsUnder truth)) f).result = .ok b) :
    (found.map (holdsUnder truth)).getD true = b := by
  induction f using Filter.induction generalizing soFar found b with
  | nil =>
      rw [ofClauses_nil] at hfound
      rw [Filter.holdsFrom_nil] at hholds
      cases hfound
      cases hholds
      rfl
  | condition c rest ih =>
      rw [ofClauses_condition, Outcome.result_bind_eq_ok_iff] at hfound
      rw [Filter.holdsFrom_condition, Outcome.result_bind_eq_ok_iff] at hholds
      obtain ⟨q, hq, hrest⟩ := hfound
      obtain ⟨held, hheld, hholds⟩ := hholds
      rw [Filter.conditions_condition] at htruth
      have hleaf := Condition.isLeaf_of_query hq
      have hvalue : q.holdsUnder truth = held := by
        have hc := htruth c List.mem_cons_self q hq
        rw [hheld] at hc
        rw [hleaf.holdsUnder_eq]
        exact (Except.ok.inj hc).symm
      refine ih ?_ (Filter.noEmptyGroup_condition_iff.mp hgroups)
        (fun d hd => htruth d (List.mem_cons_of_mem _ hd)) hrest ?_
      · rintro p ⟨⟩
        exact joinNext_ne_all hsoFar hleaf.ne_all
      · rw [Option.map_some, holdsUnder_joinNext hsoFar, hvalue]
        exact hholds
  | group l inner rest ihInner ih =>
      rw [ofClauses_group, Outcome.result_bind_eq_ok_iff] at hfound
      rw [Filter.holdsFrom_group, Outcome.result_bind_eq_ok_iff] at hholds
      obtain ⟨foundInner, hinner, hrest⟩ := hfound
      obtain ⟨held, hheld, hholds⟩ := hholds
      obtain ⟨⟨hne, hgroupsInner⟩, hgroupsRest⟩ := Filter.noEmptyGroup_group_iff.mp hgroups
      rw [Filter.conditions_group, List.forall_mem_append,
        Filter.forall_mem_relink_iff fun c => Iff.rfl] at htruth
      have hvalue := ihInner (by simp) hgroupsInner htruth.1 hinner hheld
      -- The group holds a condition, so that its own fold has come to a query.
      obtain ⟨q, rfl⟩ : ∃ q, foundInner = some q := by
        refine Option.ne_none_iff_exists'.mp fun hnone => hne ?_
        exact ((ofClauses_eq_none_iff hinner).mp hnone).2
      have hq := ne_all_of_ofClauses (by simp) hinner
      refine ih (joinGroup_ne_all hsoFar hq) hgroupsRest htruth.2 hrest ?_
      rw [joinGroup, Option.map_some, holdsUnder_joinNext hsoFar]
      rw [Option.map_some, Option.getD_some] at hvalue
      rw [hvalue]
      exact hholds

/-- A query and the verdict on a record have one boolean structure: where the leaves have the truth
values of their conditions, the query has that of the filter. Every text that is read gives a filter
of this kind. -/
theorem holdsUnder_ofFilter :
    (∀ (settings : Settings) (catalog : Catalog) (r : Record) (f : Filter) (q : Query) (b : Bool)
        (truth : Query → Bool),
      f.NoEmptyGroup →
      (ofFilter settings catalog none f).result = .ok q →
      (f.holdsOn r).result = .ok b →
      (∀ c ∈ f.conditions, ∀ leaf, (c.query catalog).result = .ok leaf →
        (c.holdsOn r).result = .ok (truth leaf)) →
      q.holdsUnder truth = b) ∧
    ∀ (s : String) (f : Filter), Filter.ofText s = .ok f → f.NoEmptyGroup := by
  refine ⟨?_, fun s f h => Filter.noEmptyGroup_of_ofText h⟩
  intro settings catalog r f q b truth hgroups hq hb htruth
  rw [result_ofFilter_none] at hq
  cases hfound : (ofClauses catalog none f).result with
  | error e =>
      rw [hfound] at hq
      cases hq
  | ok found =>
      rw [hfound] at hq
      cases hq
      have hvalue := holdsUnder_ofClauses (by simp) hgroups htruth hfound hb
      cases found with
      | none => exact hvalue
      | some q => exact hvalue

theorem holdsUnder_ofFilter_grouped :
    ∃ f q, Filter.ofText "ip = x & (attempts >= 3 | ip ~ y)" = .ok f ∧
      (ofFilter {} (Schema.mk "Session" [⟨"ip", .text⟩, ⟨"attempts", .int32⟩]).catalog none
        f).result = .ok q ∧
      (f.holdsOn (.ofList [("ip", .text "x"), ("attempts", .int32 5)])).result = .ok true ∧
      q.holdsUnder (fun leaf => decide (leaf ≠ contains "ip" "y" false)) = true := by
  let first : Condition := ⟨"ip", .equal, .text "x", .or⟩
  let second : Condition := ⟨"attempts", .greaterThanOrEqual, .text "3", .or⟩
  let third : Condition := ⟨"ip", .like, .text "y", .or⟩
  let f : Filter := [.condition first, .group .and [.condition second, .condition third]]
  let q := and (compare "ip" .equal (.text "x"))
    (or (compare "attempts" .greaterThanOrEqual (.int32 3)) (contains "ip" "y" false))
  let schema : Schema := ⟨"Session", [⟨"ip", .text⟩, ⟨"attempts", .int32⟩]⟩
  let record : Record := .ofList [("ip", .text "x"), ("attempts", .int32 5)]
  have hread : Filter.ofText "ip = x & (attempts >= 3 | ip ~ y)" = .ok f := rfl
  have hquery : (ofFilter {} schema.catalog none f).result = .ok q := rfl
  have hholds : (f.holdsOn record).result = .ok true := by cbv
  refine ⟨f, q, hread, hquery, hholds, ?_⟩
  refine holdsUnder_ofFilter.1 {} schema.catalog record f q true _ (holdsUnder_ofFilter.2 _ f hread)
    hquery hholds ?_
  have hconditions : f.conditions = [first, { second with link := .and }, third] := rfl
  rw [hconditions]
  simp only [List.forall_mem_cons]
  refine ⟨?_, ?_, ?_, by simp⟩
  · intro leaf hleaf
    have hfirst : (first.query schema.catalog).result = .ok (compare "ip" .equal (.text "x")) := rfl
    cases hfirst.symm.trans hleaf
    cbv
  · intro leaf hleaf
    have hsecond : (second.query schema.catalog).result =
      .ok (compare "attempts" .greaterThanOrEqual (.int32 3)) := rfl
    cases hsecond.symm.trans hleaf
    cbv
  · intro leaf hleaf
    have hthird : (third.query schema.catalog).result = .ok (contains "ip" "y" false) := rfl
    cases hthird.symm.trans hleaf
    cbv

end Query

end RecordFilter
