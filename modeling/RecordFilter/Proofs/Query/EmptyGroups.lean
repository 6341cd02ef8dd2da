import RecordFilter.Proofs.Filter.Order

/-!
Groups without clauses. A query passes over them. On a record such a group is a clause that holds,
so that it leaves the others alone only where a clause that holds does: joined by `and` to clauses
before it, or with none before it and the next one behind it joined by `and`.
-/

namespace RecordFilter

namespace Filter

/-- The second filter is the first one with a group without clauses between some clauses and
others of one level, which may be the top level or that of any group. -/
inductive AddsEmptyGroup (l : Connective) (before after : Filter) : Filter → Filter → Prop where
  | here : AddsEmptyGroup l before after (before ++ after) (before ++ .group l [] :: after)
  | inside (front : Filter) (k : Connective) {inner inner' : Filter} (back : Filter) :
      AddsEmptyGroup l before after inner inner' →
        AddsEmptyGroup l before after (front ++ .group k inner :: back)
          (front ++ .group k inner' :: back)

/-- Whether a clause that holds changes nothing between the clauses: it is joined by `and` to those
before it or, where there are none, the next one is joined to it by `and`. -/
def Idle (l : Connective) (before after : Filter) : Prop :=
  if before = [] then ∀ clause ∈ after.head?, clause.link = .and else l = .and

variable {r : Record} {l k : Connective} {before after inner inner' back f g : Filter}

theorem holdsFrom_cons (soFar : Option Bool) (clause : Clause) (rest : Filter) :
    holdsFrom r soFar (clause :: rest) =
      clauseHoldsOn r clause >>= fun next =>
        holdsFrom r (some (joinResult soFar clause.link next)) rest := by
  rw [holdsFrom]

theorem holdsFrom_emptyGroup (soFar : Option Bool) :
    holdsFrom r soFar (.group l [] :: after) =
      holdsFrom r (some (joinResult soFar l true)) after := by
  rw [holdsFrom_group, holdsFrom_nil, pure_bind]
  rfl

/-- Filters that are alike from every verdict so far are so behind the same clauses. What they are
alike in is what a function leaves of their verdicts. -/
theorem map_holdsFrom_append {α : Type} (φ : Bool → α)
    (h : ∀ soFar, φ <$> holdsFrom r soFar f = φ <$> holdsFrom r soFar g) (soFar : Option Bool) :
    φ <$> holdsFrom r soFar (before ++ f) = φ <$> holdsFrom r soFar (before ++ g) := by
  induction before generalizing soFar with
  | nil => exact h soFar
  | cons clause before ih =>
      rw [List.cons_append, List.cons_append, holdsFrom_cons, holdsFrom_cons, map_bind, map_bind]
      exact bind_congr fun next => ih _

theorem holdsFrom_append (h : ∀ soFar, holdsFrom r soFar f = holdsFrom r soFar g)
    (soFar : Option Bool) :
    holdsFrom r soFar (before ++ f) = holdsFrom r soFar (before ++ g) := by
  have hmap : id <$> holdsFrom r soFar (before ++ f) = id <$> holdsFrom r soFar (before ++ g) :=
    map_holdsFrom_append id (fun soFar => congrArg (id <$> ·) (h soFar)) soFar
  rwa [id_map, id_map] at hmap

/-- The verdict so far decides the verdict alone. -/
theorem course_holdsFrom (soFar other : Option Bool) :
    (holdsFrom r soFar f).course = (holdsFrom r other f).course := by
  rw [follows_holdsFrom r soFar f, follows_holdsFrom r other f]

/-- So does the verdict of a group. -/
theorem course_holdsFrom_group
    (h : (holdsFrom r none inner').course = (holdsFrom r none inner).course)
    (soFar : Option Bool) :
    (holdsFrom r soFar (.group k inner' :: back)).course =
      (holdsFrom r soFar (.group k inner :: back)).course := by
  have hback : ∀ next, (holdsFrom r (some (joinResult soFar k next)) back).course =
      (holdsFrom r none back).course := fun next => course_holdsFrom _ _
  rw [holdsFrom_group, holdsFrom_group, Outcome.course_bind, Outcome.course_bind]
  simp only [hback]
  rw [Outcome.course_bind_const, h, ← Outcome.course_bind_const]

theorem holdsFrom_group_congr (h : holdsFrom r none inner' = holdsFrom r none inner)
    (soFar : Option Bool) :
    holdsFrom r soFar (.group k inner' :: back) = holdsFrom r soFar (.group k inner :: back) := by
  rw [holdsFrom_group, holdsFrom_group, h]

theorem holdsFrom_emptyGroup_first (h : ∀ clause ∈ after.head?, clause.link = .and) :
    holdsFrom r none (.group l [] :: after) = holdsFrom r none after := by
  rw [holdsFrom_emptyGroup]
  cases after with
  | nil =>
      rw [holdsFrom_nil, holdsFrom_nil]
      rfl
  | cons clause rest =>
      have hlink : clause.link = .and := h clause rfl
      rw [holdsFrom_cons, holdsFrom_cons, hlink]
      rfl

/-- Behind the last clause before it, a group joined by `and` keeps the verdict so far. -/
theorem holdsFrom_emptyGroup_and (last : Clause) (soFar : Option Bool) :
    holdsFrom r soFar (last :: .group .and [] :: after) = holdsFrom r soFar (last :: after) := by
  rw [holdsFrom_cons, holdsFrom_cons]
  refine bind_congr fun next => ?_
  rw [holdsFrom_emptyGroup, joinResult, Connective.eval, Bool.and_true]

namespace AddsEmptyGroup

theorem course_holdsFrom (h : AddsEmptyGroup l before after f g) (soFar : Option Bool) :
    (holdsFrom r soFar g).course = (holdsFrom r soFar f).course := by
  induction h generalizing soFar with
  | here =>
      apply map_holdsFrom_append
      intro soFar
      rw [holdsFrom_emptyGroup]
      exact Filter.course_holdsFrom _ _
  | inside front k back _ ih =>
      apply map_holdsFrom_append
      exact course_holdsFrom_group (ih none)

theorem holdsOn_eq (h : AddsEmptyGroup l before after f g) (hidle : Idle l before after) :
    g.holdsOn r = f.holdsOn r := by
  unfold holdsOn
  induction h with
  | here =>
      obtain rfl | ⟨init, last, rfl⟩ := List.eq_nil_or_concat before
      · rw [Idle, if_pos rfl] at hidle
        exact holdsFrom_emptyGroup_first hidle
      · rw [List.concat_eq_append] at hidle ⊢
        rw [Idle, if_neg (by simp)] at hidle
        subst hidle
        rw [List.append_assoc, List.append_assoc]
        exact holdsFrom_append (holdsFrom_emptyGroup_and last) none
  | inside front k back _ ih => exact holdsFrom_append (holdsFrom_group_congr ih) none

end AddsEmptyGroup

end Filter

namespace Query

open RecordFilter.Filter (AddsEmptyGroup)

variable {catalog : Catalog} {l k : Connective} {before after f g : Filter}

theorem ofClauses_cons (soFar : Option Query) (clause : Clause) (rest : Filter) :
    ofClauses catalog soFar (clause :: rest) =
      ofClause catalog clause >>= fun found =>
        ofClauses catalog (joinGroup soFar clause.link found) rest := by
  rw [ofClauses]
  refine bind_congr fun found => ?_
  cases found <;> rfl

/-- Clauses behind others go on with what those ask for. -/
theorem ofClauses_append_eq_bind (soFar : Option Query) :
    ofClauses catalog soFar (f ++ g) =
      ofClauses catalog soFar f >>= fun found => ofClauses catalog found g := by
  induction f generalizing soFar with
  | nil => rw [List.nil_append, ofClauses_nil, pure_bind]
  | cons clause f ih =>
      rw [List.cons_append, ofClauses_cons, ofClauses_cons, bind_assoc]
      exact bind_congr fun found => ih _

theorem ofClauses_append (h : ∀ soFar, ofClauses catalog soFar f = ofClauses catalog soFar g)
    (soFar : Option Query) :
    ofClauses catalog soFar (before ++ f) = ofClauses catalog soFar (before ++ g) := by
  rw [ofClauses_append_eq_bind, ofClauses_append_eq_bind]
  exact bind_congr fun found => h found

theorem ofClauses_emptyGroup (soFar : Option Query) :
    ofClauses catalog soFar (.group l [] :: after) = ofClauses catalog soFar after := by
  rw [ofClauses_group, ofClauses_nil, pure_bind]
  rfl

theorem ofClauses_of_addsEmptyGroup (h : AddsEmptyGroup l before after f g)
    (soFar : Option Query) : ofClauses catalog soFar g = ofClauses catalog soFar f := by
  induction h generalizing soFar with
  | here => exact ofClauses_append ofClauses_emptyGroup soFar
  | inside front k back _ ih =>
      apply ofClauses_append
      intro soFar
      rw [ofClauses_group, ofClauses_group, ih]

/-- A group without clauses leaves the query, its notices and its errors as they are, wherever it is
put. On a record it leaves notices and errors as they are, and the verdict as well where a clause
that holds changes nothing. -/
theorem addsEmptyGroup_neutral (h : AddsEmptyGroup l before after f g) :
    (∀ (settings : Settings) (catalog : Catalog) (tenant : Option String),
        ofFilter settings catalog tenant g = ofFilter settings catalog tenant f) ∧
      ∀ r : Record,
        (g.holdsOn r).notices = (f.holdsOn r).notices ∧
          (∀ e, (g.holdsOn r).result = .error e ↔ (f.holdsOn r).result = .error e) ∧
          (Filter.Idle l before after → g.holdsOn r = f.holdsOn r) := by
  constructor
  · intro settings catalog tenant
    rw [ofFilter, ofFilter, ofClauses_of_addsEmptyGroup h]
  · intro r
    obtain ⟨hnotices, herror⟩ := Outcome.course_eq (h.course_holdsFrom (r := r) none)
    exact ⟨hnotices, herror, h.holdsOn_eq⟩

/-- Inside a group behind a condition that fails, joined by `and`. -/
theorem addsEmptyGroup_neutral_nested :
    let first : Clause := .condition ⟨"a", .equal, .text "2", .or⟩
    let second : Clause := .condition ⟨"b", .equal, .text "x", .and⟩
    let f : Filter := [.group .or [first, second]]
    let g : Filter := [.group .or [first, .group .and [], second]]
    let r := Record.ofList [("a", .int32 1), ("b", .text "x")]
    (AddsEmptyGroup .and [first] [second] f g ∧ Filter.Idle .and [first] [second]) ∧
      (g.holdsOn r).result = .ok false := by
  intro first second f g r
  have hadds : AddsEmptyGroup .and [first] [second] f g := .inside [] .or [] .here
  have hidle : Filter.Idle .and [first] [second] := by
    rw [Filter.Idle, if_neg (List.cons_ne_nil _ _)]
  have hholds : (f.holdsOn r).result = .ok false := rfl
  refine ⟨⟨hadds, hidle⟩, ?_⟩
  rw [((addsEmptyGroup_neutral hadds).2 r).2.2 hidle]
  exact hholds

/-- Joined by `or` to a condition that fails, a group without clauses makes the filter hold, though
it leaves the query as it is. -/
theorem addsEmptyGroup_or_holds :
    let first : Clause := .condition ⟨"a", .equal, .text "2", .or⟩
    let r := Record.ofList [("a", .int32 1)]
    AddsEmptyGroup .or [first] [] [first] [first, .group .or []] ∧
      Filter.conditions [first] ≠ [] ∧
      (Filter.holdsOn [first] r).result = .ok false ∧
      (Filter.holdsOn [first, .group .or []] r).result = .ok true := by
  intro first r
  refine ⟨.here, ?_, ?_, ?_⟩
  · decide
  · rfl
  · rfl

end Query

end RecordFilter
