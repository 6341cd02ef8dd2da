import Mathlib.Data.Finset.Card
import Mathlib.Logic.Function.Basic
import RecordFilter.Proofs.Schema.Catalog
import RecordFilter.Query.OfFilter

/-!
Runs of a registry: record types are looked up, described and queried in any order, declare other
fields meanwhile, and the registry is cleared now and then. Until it is cleared the next time, a
record type has the catalog of what it declared when it was used first.
-/

namespace RecordFilter.Registry

variable {κ : Type}

/-- What a record type is looked up for. -/
inductive Use where
  | lookup
  | describe
  | query (settings : Settings) (tenant : Option String) (f : Filter)

inductive Answer where
  | entry (e : Entry)
  | names (names : List (String × String))
  | query (q : Outcome QueryError Query)
  | none

inductive Step (κ : Type) where
  | use (key : κ) (purpose : Use)
  /-- From here on the record type declares what the schema says. -/
  | declare (key : κ) (schema : Schema)
  | clear

def Step.used? : Step κ → Option κ
  | use key _ => some key
  | _ => none

/-- A registry, and what each record type declares at present. -/
structure State (κ : Type) where
  registry : Registry κ
  declared : κ → Schema

def State.start (declared : κ → Schema) : State κ :=
  ⟨{}, declared⟩

/-- What a use answers by the entry of the record type. -/
def Use.answer (e : Entry) : Use → Answer
  | lookup => .entry e
  | describe => .names e.catalog.typeNames
  | query settings tenant f => .query (Query.ofFilter settings e.catalog tenant f)

variable [DecidableEq κ]

def Use.run (key : κ) (schema : Schema) (r : Registry κ) : Use → Answer × Registry κ
  | lookup => (r.obtain key schema).map .entry id
  | describe => (r.describe key schema).map .names id
  | query settings tenant f => (r.query key schema settings tenant f).map .query id

/-- Whatever it is for, a use obtains the entry and does nothing else to the registry. -/
theorem Use.run_eq (u : Use) (key : κ) (schema : Schema) (r : Registry κ) :
    u.run key schema r = (u.answer (r.obtain key schema).1, (r.obtain key schema).2) := by
  cases u <;> rfl

namespace State

def step (w : State κ) : Step κ → Answer × State κ
  | .use key u =>
      let (answer, registry) := u.run key (w.declared key) w.registry
      (answer, { w with registry })
  | .declare key schema => (.none, { w with declared := Function.update w.declared key schema })
  | .clear => (.none, { w with registry := w.registry.clear })

/-- The state behind some steps. -/
def after (w : State κ) : List (Step κ) → State κ
  | [] => w
  | s :: steps => (w.step s).2.after steps

end State

variable {r : Registry κ} {key other : κ} {schema : Schema} {e : Entry}

theorem obtain_of_some (h : r.entries.lookup key = some e) : r.obtain key schema = (e, r) := by
  rw [obtain, h]

theorem obtain_of_none (h : r.entries.lookup key = none) :
    r.obtain key schema =
      (⟨r.issued, schema.catalog⟩,
        ⟨(key, ⟨r.issued, schema.catalog⟩) :: r.entries, r.issued + 1⟩) := by
  rw [obtain, h]

theorem lookup_obtain_of_ne (h : other ≠ key) :
    (r.obtain key schema).2.entries.lookup other = r.entries.lookup other := by
  cases hfound : r.entries.lookup key with
  | some e => rw [obtain_of_some hfound]
  | none => rw [obtain_of_none hfound, List.lookup_cons, beq_false_of_ne h]

/-- The record types that have an entry. -/
def keys (r : Registry κ) : List κ :=
  r.entries.map (·.1)

theorem notMem_keys_iff : key ∉ r.keys ↔ r.entries.lookup key = none := by
  rw [keys, List.lookup_eq_none_iff, List.mem_map]
  constructor
  · intro h entry hentry
    exact bne_iff_ne.mpr fun hkey => h ⟨entry, hentry, hkey.symm⟩
  · rintro h ⟨entry, hentry, rfl⟩
    exact bne_iff_ne.mp (h entry hentry) rfl

theorem mem_keys_obtain_iff :
    other ∈ (r.obtain key schema).2.keys ↔ other = key ∨ other ∈ r.keys := by
  rw [← not_iff_not, not_or, notMem_keys_iff, notMem_keys_iff]
  by_cases h : other = key
  · subst h
    simp [lookup_obtain]
  · simp [h, lookup_obtain_of_ne h]

theorem nodup_keys_obtain (h : r.keys.Nodup) : (r.obtain key schema).2.keys.Nodup := by
  cases hfound : r.entries.lookup key with
  | some e => rwa [obtain_of_some hfound]
  | none =>
      rw [obtain_of_none hfound]
      exact List.nodup_cons.mpr ⟨notMem_keys_iff.mpr hfound, h⟩

/-- Every entry has a number that was given before. -/
def Numbered (r : Registry κ) : Prop :=
  ∀ key e, r.entries.lookup key = some e → e.serial < r.issued

theorem Numbered.obtain (h : r.Numbered) : (r.obtain key schema).2.Numbered := by
  intro other e he
  cases hfound : r.entries.lookup key with
  | some old =>
      rw [obtain_of_some hfound] at he ⊢
      exact h other e he
  | none =>
      rw [obtain_of_none hfound] at he ⊢
      by_cases hkey : other = key
      · subst hkey
        rw [List.lookup_cons_self] at he
        cases he
        exact Nat.lt_succ_self _
      · rw [List.lookup_cons, beq_false_of_ne hkey] at he
        exact Nat.lt_succ_of_lt (h other e he)

theorem Numbered.serial_obtain_lt (h : r.Numbered) :
    (r.obtain key schema).1.serial < (r.obtain key schema).2.issued :=
  h.obtain key _ (lookup_obtain key schema r)

theorem issued_le_obtain : r.issued ≤ (r.obtain key schema).2.issued := by
  cases hfound : r.entries.lookup key with
  | some e => rw [obtain_of_some hfound]
  | none =>
      rw [obtain_of_none hfound]
      exact Nat.le_succ _

namespace State

variable {w : State κ} {s : Step κ} {steps : List (Step κ)} {u : Use}

theorem step_use : w.step (.use key u) =
    (u.answer (w.registry.obtain key (w.declared key)).1,
      { w with registry := (w.registry.obtain key (w.declared key)).2 }) := by
  rw [step, Use.run_eq]

theorem after_append (w : State κ) (first second : List (Step κ)) :
    w.after (first ++ second) = (w.after first).after second := by
  induction first generalizing w with
  | nil => rfl
  | cons s first ih => exact ih _

/-- Only a use of the record type itself and a clearing touch its entry. -/
theorem lookup_step (hclear : s ≠ .clear) (hused : s.used? ≠ some key) :
    (w.step s).2.registry.entries.lookup key = w.registry.entries.lookup key := by
  cases s with
  | use other u =>
      rw [step_use]
      apply lookup_obtain_of_ne
      rintro rfl
      exact hused rfl
  | declare other schema => rfl
  | clear => exact absurd rfl hclear

theorem lookup_step_of_some (hclear : s ≠ .clear) (h : w.registry.entries.lookup key = some e) :
    (w.step s).2.registry.entries.lookup key = some e := by
  by_cases hused : s.used? = some key
  · cases s with
    | use other u =>
        cases hused
        rw [step_use, obtain_of_some h]
        exact h
    | declare other schema => exact h
    | clear => exact absurd rfl hclear
  · rw [lookup_step hclear hused, h]

theorem lookup_after_of_some (hclear : .clear ∉ steps) (h : w.registry.entries.lookup key = some e) :
    (w.after steps).registry.entries.lookup key = some e := by
  induction steps generalizing w with
  | nil => exact h
  | cons s steps ih =>
      rw [List.mem_cons, not_or] at hclear
      exact ih hclear.2 (lookup_step_of_some (Ne.symm hclear.1) h)

/-- The steps before the first use of a record type, which are all of them where there is none. -/
def beforeUse (key : κ) (steps : List (Step κ)) : List (Step κ) :=
  steps.takeWhile (·.used? ≠ some key)

/-- The entry that a record type gets in a state in which it has none. -/
def freshEntry (w : State κ) (key : κ) : Entry :=
  ⟨w.registry.issued, (w.declared key).catalog⟩

/-- From a state without an entry for a record type, every use is answered by the entry made at the
first one. -/
theorem answer_after_of_none (h : w.registry.entries.lookup key = none) (hclear : .clear ∉ steps) :
    ((w.after steps).step (.use key u)).1 =
      u.answer ((w.after (beforeUse key steps)).freshEntry key) := by
  induction steps generalizing w with
  | nil =>
      rw [step_use, after, obtain_of_none h]
      rfl
  | cons s steps ih =>
      rw [List.mem_cons, not_or] at hclear
      by_cases hused : s.used? = some key
      · have hlookup : (w.step s).2.registry.entries.lookup key = some (w.freshEntry key) := by
          cases s with
          | use other first =>
              cases hused
              rw [step_use, obtain_of_none h]
              exact List.lookup_cons_self
          | declare other schema => cases hused
          | clear => cases hused
        have hlater := lookup_after_of_some hclear.2 hlookup
        rw [step_use, after, obtain_of_some hlater]
        simp [beforeUse, hused, after]
      · have hlookup := (lookup_step (Ne.symm hclear.1) hused).trans h
        rw [after, ih hlookup hclear.2]
        simp [beforeUse, hused, after]

theorem mem_keys_after_iff (hclear : .clear ∉ steps) :
    key ∈ (w.after steps).registry.keys ↔
      key ∈ w.registry.keys ∨ key ∈ steps.filterMap Step.used? := by
  induction steps generalizing w with
  | nil => simp [after]
  | cons s steps ih =>
      rw [List.mem_cons, not_or] at hclear
      rw [after, ih hclear.2]
      cases s with
      | use other u =>
          have hused : (Step.use other u :: steps).filterMap Step.used? =
              other :: steps.filterMap Step.used? := rfl
          rw [step_use, mem_keys_obtain_iff, hused, List.mem_cons]
          tauto
      | declare other schema => rfl
      | clear => exact absurd rfl hclear.1

/-- What obtaining an entry preserves, and clearing as well, holds behind all steps. -/
theorem registry_after {P : Registry κ → Prop}
    (hobtain : ∀ r key schema, P r → P (r.obtain key schema).2) (hclear : ∀ r, P r → P r.clear)
    (h : P w.registry) : P (w.after steps).registry := by
  induction steps generalizing w with
  | nil => exact h
  | cons s steps ih =>
      apply ih
      cases s with
      | use key u =>
          rw [step_use]
          exact hobtain w.registry key (w.declared key) h
      | declare key schema => exact h
      | clear => exact hclear w.registry h

theorem nodup_keys_after (h : w.registry.keys.Nodup) : (w.after steps).registry.keys.Nodup := by
  apply registry_after (P := fun r => r.keys.Nodup) _ _ h
  · intro r key schema hr
    exact nodup_keys_obtain hr
  · intro r _
    exact List.nodup_nil

theorem size_after_of_empty (hempty : w.registry.entries = []) (hclear : .clear ∉ steps) :
    (w.after steps).registry.size = (steps.filterMap Step.used?).toFinset.card := by
  have hkeys : w.registry.keys = [] := by
    rw [keys, hempty]
    rfl
  have hnodup : (w.after steps).registry.keys.Nodup := nodup_keys_after (hkeys ▸ List.nodup_nil)
  have hsame : (w.after steps).registry.keys.toFinset = (steps.filterMap Step.used?).toFinset := by
    ext key
    rw [List.mem_toFinset, List.mem_toFinset, mem_keys_after_iff hclear, hkeys]
    simp
  rw [← hsame, List.toFinset_card_of_nodup hnodup, keys, List.length_map, size]

theorem numbered_after (h : w.registry.Numbered) : (w.after steps).registry.Numbered := by
  apply registry_after (P := Numbered) _ _ h
  · intro r key schema hr
    exact hr.obtain
  · intro r _
    exact nofun

theorem issued_le_after (w : State κ) (steps : List (Step κ)) :
    w.registry.issued ≤ (w.after steps).registry.issued := by
  apply registry_after (P := fun r => w.registry.issued ≤ r.issued) _ _ (Nat.le_refl _)
  · intro r key schema hr
    exact Nat.le_trans hr issued_le_obtain
  · intro r hr
    exact hr

theorem entries_after_start (declared : κ → Schema)
    (h : steps = [] ∨ steps.getLast? = some .clear) :
    ((start declared).after steps).registry.entries = [] := by
  rcases h with rfl | h
  · rfl
  · obtain ⟨init, rfl⟩ := List.getLast?_eq_some_iff.mp h
    rw [after_append]
    rfl

/-- Since the start or the last clearing, each record type has the one entry that was made when it was
used first, with the catalog of what it declared then and a number above those of all entries given
before. Whatever the uses are for and however they end, the registry holds one entry for each record
type used, which no step for another one touches. -/
theorem answer_use_after (declared : κ → Schema) {before recent : List (Step κ)}
    (hbefore : before = [] ∨ before.getLast? = some .clear) (hrecent : .clear ∉ recent) :
    let w := (start declared).after (before ++ recent)
    (∀ (key : κ) (u : Use),
      let first := (start declared).after (before ++ beforeUse key recent)
      (w.step (.use key u)).1 = u.answer ⟨first.registry.issued, (first.declared key).catalog⟩ ∧
        ∀ earlier other later e, before = earlier ++ .use other .lookup :: later →
          (((start declared).after earlier).step (.use other .lookup)).1 = .entry e →
          e.serial < first.registry.issued) ∧
    w.registry.size = (recent.filterMap Step.used?).toFinset.card ∧
    (∀ (key : κ) (s : Step κ), s ≠ .clear → s.used? ≠ some key →
      (w.step s).2.registry.entries.lookup key = w.registry.entries.lookup key) ∧
    ∀ schema : Schema, schema.catalog.Lists schema := by
  have hempty := entries_after_start declared hbefore
  intro w
  refine ⟨?_, ?_, fun key s => lookup_step, Schema.lists_catalog⟩
  · intro key u first
    constructor
    · show (((start declared).after (before ++ recent)).step (.use key u)).1 = _
      rw [after_append, answer_after_of_none _ hrecent, ← after_append]
      · rfl
      · rw [hempty]
        rfl
    · rintro earlier other later e rfl he
      have hnumbered : ((start declared).after earlier).registry.Numbered := numbered_after nofun
      have hlater := issued_le_after (((start declared).after earlier).step (.use other .lookup)).2
        (later ++ beforeUse key recent)
      rw [← after, ← List.cons_append, ← after_append, ← List.append_assoc, step_use] at hlater
      rw [step_use] at he
      cases he
      exact Nat.lt_of_lt_of_le hnumbered.serial_obtain_lt hlater
  · show ((start declared).after (before ++ recent)).registry.size = _
    rw [after_append, size_after_of_empty hempty hrecent]

/-- A query that fails is a use, and what is declared after it does not count. -/
theorem answer_use_after_redeclared :
    let old : Schema := ⟨"Device", [⟨"port", .text⟩, ⟨"port", .int32⟩, ⟨"name", .text⟩,
      ⟨"id", .int64⟩, ⟨"ratio", .float32⟩, ⟨"score", .float64⟩, ⟨"up", .bool⟩]⟩
    let before : List (Step Nat) := [.use 0 .lookup, .clear]
    let recent : List (Step Nat) :=
      [.use 0 (.query {} none [.condition ⟨"serial", .equal, .null, .or⟩]),
        .declare 0 ⟨"Device", []⟩, .use 1 .describe]
    let w := (start fun _ => old).after (before ++ recent)
    (before.getLast? = some .clear ∧ .clear ∉ recent) ∧
      (w.step (.use 0 .lookup)).1 = .entry ⟨1, old.catalog⟩ ∧
      (w.step (.use 0 .describe)).1 = .names [("id", "i64"), ("name", "String"), ("port", "i32"),
        ("ratio", "f32"), ("score", "f64"), ("up", "bool")] ∧
      w.registry.size = 2 := by
  intro old before recent w
  have hbefore : before.getLast? = some .clear := rfl
  have hrecent : Step.clear ∉ recent := by
    simp [recent]
  obtain ⟨hanswer, hsize, -⟩ := answer_use_after (fun _ : Nat => old) (.inr hbefore) hrecent
  exact ⟨⟨hbefore, hrecent⟩, (hanswer 0 .lookup).1, (hanswer 0 .describe).1, hsize⟩

end State

end RecordFilter.Registry
