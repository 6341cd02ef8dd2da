import Mathlib.Data.List.Forall2
import RecordFilter.Filter.Basic

/-!
The conditions of a filter by the places where they stand. A place leads through the groups around a
clause by their numbers, so that places in the order of their numbers are places in the order of the
text. The list of all conditions goes through them in this order, and a condition is joined there by
the connective of the outermost group that begins with it.
-/

namespace RecordFilter.Filter

/-- The number of a clause on its own level, behind the numbers of the groups around it, with the
outermost one first. -/
abbrev Place := List Nat

def clauseAt? : Filter → Place → Option Clause
  | _, [] => none
  | f, [i] => f[i]?
  | f, i :: j :: place =>
      match f[i]? with
      | some (.group _ inner) => clauseAt? inner (j :: place)
      | _ => none

/-- The condition at `place` stands in the group at `group`, which is joined by `l`, and no other
condition of that group stands before it. -/
structure BeginsWith (f : Filter) (l : Connective) (group place : Place) : Prop where
  isGroup : ∃ inner, clauseAt? f group = some (.group l inner)
  inside : group <+: place
  first : ∀ other c, group <+: other → clauseAt? f other = some (.condition c) → ¬other < place

/-- How the condition at a place is joined where groups are not seen: as the outermost group that
begins with it, and as it is itself where no group does. -/
inductive JoinedAt (f : Filter) (place : Place) : Connective → Prop where
  | own (c : Condition) (stands : clauseAt? f place = some (.condition c))
      (alone : ∀ l group, ¬BeginsWith f l group place) : JoinedAt f place c.link
  | group (l : Connective) (group : Place) (begins : BeginsWith f l group place)
      (outermost : ∀ k other, BeginsWith f k other place → group <+: other) : JoinedAt f place l

/-- The condition is that of a place, but for its connective. -/
structure Shows (f : Filter) (place : Place) (shown : Condition) : Prop where
  stands : ∃ c, clauseAt? f place = some (.condition c) ∧
    shown.field = c.field ∧ shown.operator = c.operator ∧ shown.operand = c.operand
  joined : JoinedAt f place shown.link

/-- The same place, where one clause more stands before it on the outermost level. -/
def shift : Place → Place
  | [] => []
  | i :: place => (i + 1) :: place

mutual

/-- The places of all conditions. -/
def places : Filter → List Place
  | [] => []
  | clause :: rest => clausePlaces clause ++ (places rest).map shift

/-- The places of the conditions of the first clause. -/
def clausePlaces : Clause → List Place
  | .condition _ => [[0]]
  | .group _ inner => (places inner).map (0 :: ·)

end

variable {f g inner rest : Filter} {c : Condition} {clause : Clause} {l : Connective}
  {place other around : Place}

theorem places_nil : places [] = [] := by
  rw [places]

theorem places_condition : places (.condition c :: rest) = [0] :: (places rest).map shift := by
  rw [places, clausePlaces]
  rfl

theorem places_group :
    places (.group l inner :: rest) =
      (places inner).map (0 :: ·) ++ (places rest).map shift := by
  rw [places, clausePlaces]

theorem clauseAt?_nil : clauseAt? [] place = none := by
  rcases place with _ | ⟨i, _ | ⟨j, place⟩⟩ <;> rfl

theorem clauseAt?_shift : clauseAt? (clause :: rest) (shift place) = clauseAt? rest place := by
  rcases place with _ | ⟨i, _ | ⟨j, place⟩⟩ <;> rfl

theorem clauseAt?_group (hplace : place ≠ []) :
    clauseAt? (.group l inner :: rest) (0 :: place) = clauseAt? inner place := by
  cases place with
  | nil => exact absurd rfl hplace
  | cons i place => rfl

theorem ne_nil_of_clauseAt? (h : clauseAt? f place = some clause) : place ≠ [] := by
  rintro rfl
  cases h

theorem BeginsWith.ne_nil (h : BeginsWith f l around place) : around ≠ [] := by
  obtain ⟨inner, hgroup⟩ := h.isGroup
  exact ne_nil_of_clauseAt? hgroup

theorem shift_lt_shift_iff : shift place < shift other ↔ place < other := by
  cases place <;> cases other <;> simp [shift, List.cons_lt_cons_iff]

theorem shift_prefix_shift_iff : shift place <+: shift other ↔ place <+: other := by
  cases place <;> cases other <;> simp [shift, List.cons_prefix_cons]

theorem mem_map_shift_iff {shifted : List Place} (hnil : [] ∉ shifted) :
    place ∈ shifted.map shift ↔ ∃ i tail, place = (i + 1) :: tail ∧ i :: tail ∈ shifted := by
  rw [List.mem_map]
  constructor
  · rintro ⟨_ | ⟨i, tail⟩, hmem, rfl⟩
    · exact absurd hmem hnil
    · exact ⟨i, tail, rfl, hmem⟩
  · rintro ⟨i, tail, rfl, hmem⟩
    exact ⟨i :: tail, hmem, rfl⟩

theorem mem_places_iff : place ∈ places f ↔ ∃ c, clauseAt? f place = some (.condition c) := by
  have hne {f : Filter} (ih : ∀ place, place ∈ places f ↔
      ∃ c, clauseAt? f place = some (.condition c)) : [] ∉ places f := by
    intro hmem
    obtain ⟨c, hc⟩ := (ih []).mp hmem
    cases hc
  induction f using Filter.induction generalizing place with
  | nil => simp [places_nil, clauseAt?_nil]
  | condition c rest ih =>
      rw [places_condition, List.mem_cons, mem_map_shift_iff (hne @ih)]
      rcases place with _ | ⟨_ | i, tail⟩
      · simp [clauseAt?]
      · cases tail <;> simp [clauseAt?]
      · have hshift : clauseAt? (.condition c :: rest) (shift (i :: tail)) =
            clauseAt? rest (i :: tail) := clauseAt?_shift
        rw [shift] at hshift
        simp [hshift, ih]
  | group l inner rest ihInner ih =>
      rw [places_group, List.mem_append, mem_map_shift_iff (hne @ih)]
      rcases place with _ | ⟨_ | i, tail⟩
      · simp [clauseAt?]
      · cases tail with
        | nil => simp [clauseAt?, hne @ihInner]
        | cons j tail => simp [clauseAt?_group, ihInner]
      · have hshift : clauseAt? (.group l inner :: rest) (shift (i :: tail)) =
            clauseAt? rest (i :: tail) := clauseAt?_shift
        rw [shift] at hshift
        simp [hshift, ih]

theorem ne_nil_of_mem_places (h : place ∈ places f) : place ≠ [] := by
  obtain ⟨c, hc⟩ := mem_places_iff.mp h
  exact ne_nil_of_clauseAt? hc

theorem zero_cons_lt_shift (h : other ≠ []) : 0 :: place < shift other := by
  cases other with
  | nil => exact absurd rfl h
  | cons i other => exact List.cons_lt_cons_iff.mpr (.inl (Nat.succ_pos i))

theorem pairwise_map_shift (h : (places f).Pairwise (· < ·)) :
    ((places f).map shift).Pairwise (· < ·) :=
  List.pairwise_map.mpr (h.imp shift_lt_shift_iff.mpr)

theorem pairwise_places (f : Filter) : (places f).Pairwise (· < ·) := by
  induction f using Filter.induction with
  | nil => simp [places_nil]
  | condition c rest ih =>
      rw [places_condition]
      refine List.pairwise_cons.mpr ⟨?_, pairwise_map_shift ih⟩
      simp only [List.mem_map]
      rintro _ ⟨other, hother, rfl⟩
      exact zero_cons_lt_shift (ne_nil_of_mem_places hother)
  | group l inner rest ihInner ih =>
      rw [places_group]
      refine List.pairwise_append.mpr ⟨List.pairwise_map.mpr (ihInner.imp ?_),
        pairwise_map_shift ih, ?_⟩
      · exact fun hlt => List.cons_lt_cons_iff.mpr (.inr ⟨rfl, hlt⟩)
      · simp only [List.mem_map]
        rintro _ ⟨place, _, rfl⟩ _ ⟨other, hother, rfl⟩
        exact zero_cons_lt_shift (ne_nil_of_mem_places hother)

/-- The clauses of `f` stand in `g` as well, at the places that `move` leads to: in their own order,
and with everything else outside of their groups. -/
structure Embeds (f g : Filter) (move : Place → Place) : Prop where
  clauseAt?_eq : ∀ place, place ≠ [] → clauseAt? g (move place) = clauseAt? f place
  lt_iff : ∀ place other, move place < move other ↔ place < other
  prefix_iff : ∀ group place, move group <+: move place ↔ group <+: place
  exists_of_prefix : ∀ group, group ≠ [] → ∀ place, move group <+: place →
    ∃ source, place = move source

theorem embeds_shift (clause : Clause) (rest : Filter) : Embeds rest (clause :: rest) shift where
  clauseAt?_eq _ _ := clauseAt?_shift
  lt_iff _ _ := shift_lt_shift_iff
  prefix_iff _ _ := shift_prefix_shift_iff
  exists_of_prefix group hgroup place h := by
    obtain ⟨tail, rfl⟩ := h
    cases group with
    | nil => exact absurd rfl hgroup
    | cons i group => exact ⟨i :: (group ++ tail), rfl⟩

theorem embeds_group (l : Connective) (inner rest : Filter) :
    Embeds inner (.group l inner :: rest) (0 :: ·) where
  clauseAt?_eq _ := clauseAt?_group
  lt_iff _ _ := by simp
  prefix_iff _ _ := by simp [List.cons_prefix_cons]
  exists_of_prefix group _ place h := by
    obtain ⟨tail, rfl⟩ := h
    exact ⟨group ++ tail, rfl⟩

namespace Embeds

variable {move : Place → Place}

theorem beginsWith_iff (h : Embeds f g move) (haround : around ≠ []) :
    BeginsWith g l (move around) (move place) ↔ BeginsWith f l around place := by
  constructor
  · intro hbegins
    refine ⟨?_, (h.prefix_iff _ _).mp hbegins.inside, ?_⟩
    · rw [← h.clauseAt?_eq around haround]
      exact hbegins.isGroup
    · intro other c hinside hother hlt
      rw [← h.clauseAt?_eq other (ne_nil_of_clauseAt? hother)] at hother
      exact hbegins.first (move other) c ((h.prefix_iff _ _).mpr hinside) hother
        ((h.lt_iff _ _).mpr hlt)
  · intro hbegins
    refine ⟨?_, (h.prefix_iff _ _).mpr hbegins.inside, ?_⟩
    · rw [h.clauseAt?_eq around haround]
      exact hbegins.isGroup
    · intro other c hinside hother hlt
      obtain ⟨source, rfl⟩ := h.exists_of_prefix around haround other hinside
      have hprefix := (h.prefix_iff _ _).mp hinside
      have hsource : source ≠ [] := by
        rintro rfl
        exact haround (List.prefix_nil.mp hprefix)
      rw [h.clauseAt?_eq source hsource] at hother
      exact hbegins.first source c hprefix hother ((h.lt_iff _ _).mp hlt)

/-- A condition is joined in both filters alike, unless a group around all of `f` begins with it. -/
theorem joinedAt (h : Embeds f g move)
    (hgroups : ∀ l around, BeginsWith g l around (move place) → ∃ source ≠ [], around = move source)
    (hjoined : JoinedAt f place l) : JoinedAt g (move place) l := by
  have hback : ∀ k other, BeginsWith g k other (move place) →
      ∃ source, other = move source ∧ BeginsWith f k source place := by
    intro k other hbegins
    obtain ⟨source, hsource, rfl⟩ := hgroups k other hbegins
    exact ⟨source, rfl, (h.beginsWith_iff hsource).mp hbegins⟩
  cases hjoined with
  | own c stands alone =>
      refine .own c ?_ ?_
      · rw [h.clauseAt?_eq place (ne_nil_of_clauseAt? stands)]
        exact stands
      · intro k other hbegins
        obtain ⟨source, -, hsource⟩ := hback k other hbegins
        exact alone k source hsource
  | group _ around begins outermost =>
      refine .group l (move around) ((h.beginsWith_iff begins.ne_nil).mpr begins) ?_
      intro k other hbegins
      obtain ⟨source, rfl, hsource⟩ := hback k other hbegins
      exact (h.prefix_iff _ _).mpr (outermost k source hsource)

theorem shows (h : Embeds f g move) {shown : Condition}
    (hgroups : ∀ l around, BeginsWith g l around (move place) → ∃ source ≠ [], around = move source)
    (hshows : Shows f place shown) : Shows g (move place) shown := by
  obtain ⟨⟨c, hc, hsame⟩, hjoined⟩ := hshows
  refine ⟨⟨c, ?_, hsame⟩, h.joinedAt hgroups hjoined⟩
  rw [h.clauseAt?_eq place (ne_nil_of_clauseAt? hc)]
  exact hc

end Embeds

theorem shows_condition : Shows (.condition c :: rest) [0] c := by
  refine ⟨⟨c, rfl, rfl, rfl, rfl⟩, .own c rfl ?_⟩
  intro l around hbegins
  obtain ⟨inner, hgroup⟩ := hbegins.isGroup
  have hinside := hbegins.inside
  rcases around with _ | ⟨i, around⟩
  · cases hgroup
  · obtain ⟨rfl, hrest⟩ := List.cons_prefix_cons.mp hinside
    cases List.prefix_nil.mp hrest
    cases hgroup

theorem Shows.shift {shown : Condition} (h : Shows rest place shown) :
    Shows (clause :: rest) (shift place) shown := by
  refine (embeds_shift clause rest).shows ?_ h
  intro l around hbegins
  obtain ⟨tail, htail⟩ := hbegins.inside
  rcases place with _ | ⟨i, place⟩
  · obtain ⟨⟨c, hc, -⟩, -⟩ := h
    cases hc
  · rcases around with _ | ⟨j, around⟩
    · exact absurd rfl hbegins.ne_nil
    · cases htail
      exact ⟨i :: around, List.cons_ne_nil _ _, rfl⟩

/-- Behind the first condition of a group, its connective joins nothing. -/
theorem Shows.group {first : Place} {shown : Condition} (hfirst : first ∈ places inner)
    (hlt : first < place) (h : Shows inner place shown) :
    Shows (.group l inner :: rest) (0 :: place) shown := by
  refine (embeds_group l inner rest).shows ?_ h
  intro k around hbegins
  obtain ⟨tail, htail⟩ := hbegins.inside
  rcases around with _ | ⟨j, _ | ⟨i, around⟩⟩
  · exact absurd rfl hbegins.ne_nil
  · obtain ⟨c, hc⟩ := mem_places_iff.mp hfirst
    cases htail
    have hinside : clauseAt? (.group l inner :: rest) (0 :: first) = some (.condition c) := by
      rw [clauseAt?_group (ne_nil_of_clauseAt? hc), hc]
    exact absurd (List.cons_lt_cons_iff.mpr (.inr ⟨rfl, hlt⟩))
      (hbegins.first (0 :: first) c ⟨first, rfl⟩ hinside)
  · cases htail
    exact ⟨i :: around, List.cons_ne_nil _ _, rfl⟩

theorem Shows.groupFirst {shown : Condition} (hfirst : ∀ other ∈ places inner, ¬other < place)
    (h : Shows inner place shown) :
    Shows (.group l inner :: rest) (0 :: place) { shown with link := l } := by
  obtain ⟨⟨c, hc, hsame⟩, -⟩ := h
  refine ⟨⟨c, ?_, hsame⟩, .group l [0] ⟨⟨inner, rfl⟩, ⟨place, rfl⟩, ?_⟩ ?_⟩
  · rw [clauseAt?_group (ne_nil_of_clauseAt? hc)]
    exact hc
  · rintro _ d ⟨other, rfl⟩ hother hlt
    have hne : other ≠ [] := by
      rintro rfl
      cases hother
    rw [List.singleton_append, clauseAt?_group hne] at hother
    refine hfirst other (mem_places_iff.mpr ⟨d, hother⟩) ?_
    simpa [List.cons_lt_cons_iff] using hlt
  · intro k around hbegins
    obtain ⟨tail, htail⟩ := hbegins.inside
    rcases around with _ | ⟨i, around⟩
    · exact absurd rfl hbegins.ne_nil
    · cases htail
      exact ⟨around, rfl⟩

theorem forall₂_shows_shift {shown : List Condition}
    (h : List.Forall₂ (Shows rest) (places rest) shown) :
    List.Forall₂ (Shows (clause :: rest)) ((places rest).map shift) shown :=
  List.forall₂_map_left_iff.mpr (h.imp fun _ _ => Shows.shift)

theorem forall₂_shows_group (h : List.Forall₂ (Shows inner) (places inner) (conditions inner)) :
    List.Forall₂ (Shows (.group l inner :: rest)) ((places inner).map (0 :: ·))
      (relink l (conditions inner)) := by
  have hsorted := pairwise_places inner
  have hmem : ∀ place ∈ places inner, place ∈ places inner := fun _ => id
  revert h hsorted hmem
  generalize conditions inner = shown
  generalize hplaces : places inner = listed
  intro h hsorted hmem
  rw [List.forall₂_map_left_iff]
  cases h with
  | nil => exact .nil
  | @cons first e others es hfirst hothers =>
      obtain ⟨hbefore, -⟩ := List.pairwise_cons.mp hsorted
      refine .cons (hfirst.groupFirst ?_) ?_
      · rw [hplaces]
        intro other hother hlt
        rcases List.mem_cons.mp hother with rfl | hother
        · exact List.lt_irrefl _ hlt
        · exact List.lt_asymm hlt (hbefore other hother)
      · have hboth := (List.forall₂_and_left _ _).mpr ⟨hbefore, hothers⟩
        refine hboth.imp ?_
        rintro place shown ⟨hlt, hshows⟩
        exact hshows.group (hplaces ▸ List.mem_cons_self) hlt

/-- The list of all conditions shows them in the order of their places. -/
theorem forall₂_shows_conditions (f : Filter) :
    List.Forall₂ (Shows f) (places f) (conditions f) := by
  induction f using Filter.induction with
  | nil =>
      rw [places_nil, conditions_nil]
      exact .nil
  | condition c rest ih =>
      rw [places_condition, conditions_condition]
      exact .cons shows_condition (forall₂_shows_shift ih)
  | group l inner rest ihInner ih =>
      rw [places_group, conditions_group]
      exact List.rel_append (forall₂_shows_group ihInner) (forall₂_shows_shift ih)

section

variable {name : String} {names : List String}

theorem length_conditions (f : Filter) : (conditions f).length = size f := by
  induction f using Filter.induction with
  | nil =>
      rw [conditions_nil, size]
      rfl
  | condition c rest ih =>
      rw [conditions_condition, List.length_cons, ih, size, clauseSize, Nat.add_comm]
  | group l inner rest ihInner ih =>
      rw [conditions_group, List.length_append, length_relink, ihInner, ih, size, clauseSize]

theorem mem_distinct_iff : name ∈ distinct names ↔ name ∈ names := by
  induction names with
  | nil => rfl
  | cons first rest ih =>
      rw [distinct, List.mem_cons, List.mem_cons, List.mem_filter, ih, bne_iff_ne]
      by_cases h : name = first <;> simp [h]

/-- Of two members the one that appears first comes first, whatever else lies between them. -/
theorem pairwise_distinct (names : List String) :
    (distinct names).Pairwise fun a b => names.idxOf a < names.idxOf b := by
  induction names with
  | nil => exact .nil
  | cons first rest ih =>
      have hlater : ∀ name ∈ (distinct rest).filter (· != first),
          (first :: rest).idxOf name = rest.idxOf name + 1 := by
        intro name hname
        have hne : name ≠ first := bne_iff_ne.mp (List.mem_filter.mp hname).2
        exact List.idxOf_cons_ne rest hne.symm
      rw [distinct]
      refine List.pairwise_cons.mpr ⟨?_, ?_⟩
      · intro name hname
        rw [hlater name hname, List.idxOf_cons_self]
        exact Nat.succ_pos _
      · refine (ih.filter _).imp_of_mem ?_
        intro a b ha hb hlt
        rw [hlater a ha, hlater b hb]
        exact Nat.succ_lt_succ hlt

end

/-- Every condition is in the list of all conditions once, in the order of the text and with its own
field, operator and operand; it is joined as the outermost group that begins with it, or as it is
itself where none does. The names of fields are those of the list, each where it appears first. -/
theorem conditions_in_order (f : Filter) :
    (conditions f).length = size f ∧
    (∃ places : List Place, places.Pairwise (· < ·) ∧
      (∀ place, place ∈ places ↔ ∃ c, clauseAt? f place = some (.condition c)) ∧
      List.Forall₂ (Shows f) places (conditions f)) ∧
    (∀ name, name ∈ fieldNames f ↔ ∃ c ∈ conditions f, c.field = name) ∧
    (fieldNames f).Nodup ∧
    (fieldNames f).Pairwise fun a b =>
      ((conditions f).map (·.field)).idxOf a < ((conditions f).map (·.field)).idxOf b := by
  have hfirst := pairwise_distinct ((conditions f).map (·.field))
  refine ⟨length_conditions f,
    ⟨places f, pairwise_places f, fun _ => mem_places_iff, forall₂_shows_conditions f⟩, ?_, ?_,
    hfirst⟩
  · intro name
    rw [fieldNames, mem_distinct_iff, List.mem_map]
  · refine hfirst.imp ?_
    rintro a _ hlt rfl
    exact Nat.lt_irrefl _ hlt

/-- Groups without conditions begin with none, and leave the condition behind them as it is. -/
example (a b c : Condition) :
    conditions [.group .and [], .condition a,
      .group .and [.group .or [], .group .or [.condition b], .condition c]] =
      [a, { b with link := .and }, c] := rfl

end RecordFilter.Filter
