import RecordFilter.Proofs.Query.EmptyGroups

/-!
Clauses are joined from left to right: the first clauses of a level are already a group of their
own, and the connective of the very first one joins nothing.
-/

namespace RecordFilter

/-- The clause with another connective before it. -/
def Clause.joinedBy (l : Connective) : Clause → Clause
  | condition c => condition { c with link := l }
  | group _ inner => group l inner

namespace Filter

/-- The second filter is the first one after a change on one level, which may be the top level or
that of any group: some of the first clauses are put in a group that takes the connective of the
first of them, or the first clause gets another connective. -/
inductive Regroups : Filter → Filter → Prop where
  | front (first : Clause) (more rest : Filter) :
      Regroups (first :: more ++ rest) (.group first.link (first :: more) :: rest)
  | relink (l : Connective) (first : Clause) (rest : Filter) :
      Regroups (first :: rest) (first.joinedBy l :: rest)
  | inside (before : Filter) (k : Connective) {inner inner' : Filter} (after : Filter) :
      Regroups inner inner' →
        Regroups (before ++ .group k inner :: after) (before ++ .group k inner' :: after)

variable {r : Record} {f g more rest : Filter} {first : Clause} {l : Connective}

/-- Clauses behind others go on with what those have given. -/
theorem holdsFrom_some_append (held : Bool) :
    holdsFrom r (some held) (f ++ g) =
      holdsFrom r (some held) f >>= fun next => holdsFrom r (some next) g := by
  induction f generalizing held with
  | nil =>
      rw [List.nil_append, holdsFrom_nil, pure_bind]
      rfl
  | cons clause f ih =>
      rw [List.cons_append, holdsFrom_cons, holdsFrom_cons, bind_assoc]
      exact bind_congr fun next => ih _

theorem holdsFrom_front (soFar : Option Bool) :
    holdsFrom r soFar (first :: more ++ rest) =
      holdsFrom r soFar (first :: more) >>= fun next => holdsFrom r (some next) rest := by
  rw [List.cons_append, holdsFrom_cons, holdsFrom_cons, bind_assoc]
  exact bind_congr fun next => holdsFrom_some_append _

/-- The first clauses of a level are joined to nothing before them, and so is a group of them. -/
theorem holdsFrom_group_front :
    holdsFrom r none (.group l (first :: more) :: rest) =
      holdsFrom r none (first :: more ++ rest) := by
  rw [holdsFrom_group, holdsFrom_front]
  rfl

theorem clauseHoldsOn_joinedBy (clause : Clause) :
    clauseHoldsOn r (clause.joinedBy l) = clauseHoldsOn r clause := by
  cases clause with
  | condition c =>
      rw [Clause.joinedBy, clauseHoldsOn, clauseHoldsOn]
      rfl
  | group k inner => rw [Clause.joinedBy, clauseHoldsOn, clauseHoldsOn]

theorem holdsFrom_joinedBy :
    holdsFrom r none (first.joinedBy l :: rest) = holdsFrom r none (first :: rest) := by
  rw [holdsFrom_cons, holdsFrom_cons, clauseHoldsOn_joinedBy]
  rfl

theorem Regroups.holdsOn_eq (h : Regroups f g) : g.holdsOn r = f.holdsOn r := by
  unfold holdsOn
  induction h with
  | front first more rest => exact holdsFrom_group_front
  | relink l first rest => exact holdsFrom_joinedBy
  | inside before k after _ ih => exact holdsFrom_append (holdsFrom_group_congr ih) none

end Filter

namespace Query

open RecordFilter.Filter (Regroups)

variable {catalog : Catalog} {f g more rest : Filter} {first : Clause} {l : Connective}

theorem joinGroup_none (found : Option Query) : joinGroup none l found = found := by
  cases found <;> rfl

/-- A group that asks for nothing is passed over as its clauses are. -/
theorem ofClauses_group_front :
    ofClauses catalog none (.group l f :: rest) = ofClauses catalog none (f ++ rest) := by
  rw [ofClauses_group, ofClauses_append_eq_bind]
  simp only [joinGroup_none]

theorem ofClause_joinedBy (clause : Clause) :
    ofClause catalog (clause.joinedBy l) = ofClause catalog clause := by
  cases clause with
  | condition c =>
      rw [Clause.joinedBy, ofClause, ofClause]
      rfl
  | group k inner => rw [Clause.joinedBy, ofClause, ofClause]

theorem ofClauses_joinedBy :
    ofClauses catalog none (first.joinedBy l :: rest) = ofClauses catalog none (first :: rest) := by
  rw [ofClauses_cons, ofClauses_cons, ofClause_joinedBy]
  simp only [joinGroup_none]

theorem ofClauses_of_regroups (h : Regroups f g) :
    ofClauses catalog none g = ofClauses catalog none f := by
  induction h with
  | front first more rest => exact ofClauses_group_front
  | relink l first rest => exact ofClauses_joinedBy
  | inside before k after _ ih =>
      apply ofClauses_append
      intro soFar
      rw [ofClauses_group, ofClauses_group, ih]

/-- Connectives associate to the left: neither a group around the first clauses of a level nor
another connective before the first one changes what a filter gives on a record, what it asks for,
the errors, or what is reported. -/
theorem regroups_neutral (h : Regroups f g) :
    (∀ r : Record, g.holdsOn r = f.holdsOn r) ∧
      ∀ (settings : Settings) (catalog : Catalog) (tenant : Option String),
        ofFilter settings catalog tenant g = ofFilter settings catalog tenant f := by
  constructor
  · intro r
    exact h.holdsOn_eq
  · intro settings catalog tenant
    rw [ofFilter, ofFilter, ofClauses_of_regroups h]

/-- Inside a group, with a group without conditions among the clauses that are put together. -/
theorem regroups_neutral_inside :
    let first : Clause := .condition ⟨"a", .equal, .text "1", .or⟩
    let second : Clause := .condition ⟨"b", .like, .text "x", .and⟩
    let third : Clause := .condition ⟨"a", .notEqual, .null, .or⟩
    let f : Filter := [first, .group .and [.group .or [], first, second, third]]
    let g : Filter := [first, .group .and [.group .or [.group .or [], first, second], third]]
    let catalog := (Schema.mk "Session" [⟨"a", .int32⟩, ⟨"b", .text⟩]).catalog
    let p : Query := compare "a" .equal (.int32 1)
    Regroups f g ∧
      (g.holdsOn (.ofList [("a", .int32 1), ("b", .text "y")])).result = .ok true ∧
      (g.holdsOn (.ofList [("a", .int32 1)])).result = .error (.missingField "b") ∧
      (ofFilter {} catalog none g).result =
        .ok (and p (or (and p (contains "b" "x" false)) (isNotNull "a"))) := by
  intro first second third f g catalog p
  have hregroups : Regroups f g :=
    .inside [first] .and [] (.front (.group .or []) [first, second] [third])
  obtain ⟨hholds, hquery⟩ := regroups_neutral hregroups
  refine ⟨hregroups, ?_, ?_, ?_⟩
  · rw [hholds]
    rfl
  · rw [hholds]
    rfl
  · rw [hquery]
    rfl

end Query

end RecordFilter
