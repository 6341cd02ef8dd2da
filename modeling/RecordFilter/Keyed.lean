/-!
Association lists in ascending order of their names, with one value for each name. The order of
names is that of their characters, which is also that of their bytes in UTF-8.
-/

namespace RecordFilter.Keyed

/-- Puts a value in its place; the value that the name had is gone. -/
def insert {α : Type} (name : String) (value : α) : List (String × α) → List (String × α)
  | [] => [(name, value)]
  | (other, old) :: rest =>
      if name < other then (name, value) :: (other, old) :: rest
      else if name = other then (name, value) :: rest
      else (other, old) :: insert name value rest

/-- Of the entries of one name, the last counts. -/
def ofList {α : Type} (entries : List (String × α)) : List (String × α) :=
  entries.foldl (fun found entry => insert entry.1 entry.2 found) []

theorem lookup_insert {α : Type} (name : String) (value : α) (entries : List (String × α)) :
    (insert name value entries).lookup name = some value := by
  induction entries with
  | nil => simp [insert]
  | cons entry rest ih =>
      rcases entry with ⟨other, old⟩
      simp only [insert]
      split
      · simp
      · split
        · simp
        · rename_i h
          simp [List.lookup_cons, beq_false_of_ne h, ih]

theorem lookup_insert_of_ne {α : Type} {name other : String} (h : other ≠ name) (value : α)
    (entries : List (String × α)) :
    (insert name value entries).lookup other = entries.lookup other := by
  induction entries with
  | nil => simp [insert, List.lookup_cons, beq_false_of_ne h]
  | cons entry rest ih =>
      rcases entry with ⟨head, old⟩
      simp only [insert]
      split
      · simp [List.lookup_cons, beq_false_of_ne h]
      · split
        · rename_i heq
          subst heq
          simp [List.lookup_cons, beq_false_of_ne h]
        · simp [List.lookup_cons, ih]

theorem lookup_foldl_insert {α : Type} (name : String) (entries found : List (String × α)) :
    (entries.foldl (fun found entry => insert entry.1 entry.2 found) found).lookup name =
      (entries.reverse ++ found).lookup name := by
  induction entries generalizing found with
  | nil => rfl
  | cons entry rest ih =>
      rw [List.foldl_cons, ih, List.reverse_cons, List.append_assoc, List.lookup_append,
        List.lookup_append]
      congr 1
      rw [List.singleton_append]
      by_cases h : name = entry.1
      · subst h
        rw [lookup_insert, List.lookup_cons_self]
      · rw [lookup_insert_of_ne h, List.lookup_cons, beq_false_of_ne h]

theorem lookup_ofList {α : Type} (name : String) (entries : List (String × α)) :
    (ofList entries).lookup name = entries.reverse.lookup name := by
  rw [ofList, lookup_foldl_insert, List.append_nil]

/-- Where no name is repeated, every entry is the one that its name stands for. -/
theorem mem_iff_lookup {α : Type} {entries : List (String × α)} (h : (entries.map (·.1)).Nodup)
    {name : String} {value : α} : (name, value) ∈ entries ↔ entries.lookup name = some value := by
  induction entries with
  | nil => simp
  | cons entry rest ih =>
      rcases entry with ⟨other, old⟩
      obtain ⟨hfirst, hrest⟩ := List.nodup_cons.mp h
      rw [List.mem_cons, Prod.mk.injEq, List.lookup_cons]
      by_cases hname : name = other
      · subst hname
        have hnot : (name, value) ∉ rest := fun hmem =>
          hfirst (List.mem_map.mpr ⟨(name, value), hmem, rfl⟩)
        simp [hnot, eq_comm]
      · simp [hname, beq_false_of_ne hname, ih hrest]

/-- Names strictly ascending, so that none is there twice. -/
def Sorted {α : Type} (entries : List (String × α)) : Prop :=
  entries.Pairwise fun left right => left.1 < right.1

theorem Sorted.nodup {α : Type} {entries : List (String × α)} (h : Sorted entries) :
    (entries.map (·.1)).Nodup := by
  refine List.pairwise_map.mpr (h.imp ?_)
  intro left right hlt heq
  exact String.lt_irrefl _ (heq ▸ hlt)

theorem mem_insert {α : Type} {name : String} {value : α} {entries : List (String × α)}
    {entry : String × α} (h : entry ∈ insert name value entries) :
    entry = (name, value) ∨ entry ∈ entries := by
  induction entries with
  | nil => simpa [insert] using h
  | cons first rest ih =>
      rcases first with ⟨other, old⟩
      simp only [insert] at h
      split at h
      · simpa using h
      · split at h
        · rcases List.mem_cons.mp h with h | h
          · exact .inl h
          · exact .inr (List.mem_cons_of_mem _ h)
        · rcases List.mem_cons.mp h with h | h
          · exact .inr (h ▸ List.mem_cons_self)
          · rcases ih h with h | h
            · exact .inl h
            · exact .inr (List.mem_cons_of_mem _ h)

theorem sorted_insert {α : Type} (name : String) (value : α) {entries : List (String × α)}
    (h : Sorted entries) : Sorted (insert name value entries) := by
  induction entries with
  | nil => simp [insert, Sorted]
  | cons first rest ih =>
      rcases first with ⟨other, old⟩
      obtain ⟨hfirst, hrest⟩ := List.pairwise_cons.mp h
      simp only [insert]
      split
      · rename_i hlt
        refine List.pairwise_cons.mpr ⟨?_, h⟩
        intro entry hentry
        rcases List.mem_cons.mp hentry with rfl | hmem
        · exact hlt
        · exact String.lt_trans hlt (hfirst entry hmem)
      · split
        · rename_i heq
          exact List.pairwise_cons.mpr ⟨fun entry hentry => heq ▸ hfirst entry hentry, hrest⟩
        · rename_i hnot hne
          refine List.pairwise_cons.mpr ⟨?_, ih hrest⟩
          intro entry hentry
          rcases mem_insert hentry with rfl | hmem
          · exact Decidable.byContradiction fun hge =>
              hne (String.le_antisymm (String.not_lt.mp hge) (String.not_lt.mp hnot))
          · exact hfirst entry hmem

theorem sorted_ofList {α : Type} (entries : List (String × α)) : Sorted (ofList entries) := by
  have h : ∀ found : List (String × α), Sorted found →
      Sorted (entries.foldl (fun found entry => insert entry.1 entry.2 found) found) := by
    induction entries with
    | nil => exact fun _ hfound => hfound
    | cons entry rest ih => exact fun found hfound => ih _ (sorted_insert _ _ hfound)
  exact h [] List.Pairwise.nil

end RecordFilter.Keyed
