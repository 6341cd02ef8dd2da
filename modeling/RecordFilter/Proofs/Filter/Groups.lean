import RecordFilter.Proofs.Expression.Levels

/-!
Filters in which every group has a condition. Every filter that has been read is one.
-/

namespace RecordFilter.Filter

mutual

/-- No group at any depth is without conditions. -/
def NoEmptyGroup : Filter → Prop
  | [] => True
  | clause :: rest => ClauseNoEmptyGroup clause ∧ NoEmptyGroup rest

def ClauseNoEmptyGroup : Clause → Prop
  | .condition _ => True
  | .group _ inner => conditions inner ≠ [] ∧ NoEmptyGroup inner

end

theorem noEmptyGroup_condition_iff {c : Condition} {rest : Filter} :
    NoEmptyGroup (.condition c :: rest) ↔ NoEmptyGroup rest := by
  rw [NoEmptyGroup, ClauseNoEmptyGroup]
  exact Iff.of_eq (true_and _)

theorem noEmptyGroup_group_iff {l : Connective} {inner rest : Filter} :
    NoEmptyGroup (.group l inner :: rest) ↔
      (conditions inner ≠ [] ∧ NoEmptyGroup inner) ∧ NoEmptyGroup rest := by
  rw [NoEmptyGroup, ClauseNoEmptyGroup]

theorem noEmptyGroup_of_forall_mem {f : Filter} (h : ∀ clause ∈ f, ClauseNoEmptyGroup clause) :
    NoEmptyGroup f := by
  induction f with
  | nil => trivial
  | cons clause rest ih =>
      rw [NoEmptyGroup]
      exact ⟨h clause List.mem_cons_self, ih fun d hd => h d (List.mem_cons_of_mem _ hd)⟩

/-- Where groups have conditions, clauses have some as well. -/
theorem conditions_ne_nil {f : Filter} (hgroups : NoEmptyGroup f) (hne : f ≠ []) :
    conditions f ≠ [] := by
  rcases f with _ | ⟨c | ⟨l, inner⟩, rest⟩
  · exact absurd rfl hne
  · simp [conditions_condition]
  · rw [noEmptyGroup_group_iff] at hgroups
    simp [conditions_group, relink_eq_nil_iff, hgroups.1.1]

theorem noEmptyGroup_of_ofText {s : String} {f : Filter} (h : ofText s = .ok f) :
    NoEmptyGroup f := by
  refine noEmptyGroup_of_forall_mem (forall_mem_of_ofText ?_ ?_ h)
  · intro s text c l _ _ _
    trivial
  · intro inner l hne hclauses
    have hinner := noEmptyGroup_of_forall_mem hclauses
    rw [ClauseNoEmptyGroup]
    exact ⟨conditions_ne_nil hinner hne, hinner⟩

end RecordFilter.Filter
