import RecordFilter.Json.Basic
import RecordFilter.Keyed

/-!
Typed values from JSON documents. The first argument of a reader is the room left: how many
containers may still be entered one inside the other. Members that no field asks for are not
entered, so that they may nest to any depth.
-/

namespace RecordFilter.Json

/-- Containers that may be open at once. -/
def nestingLimit : Nat :=
  127

def text? : Json → Option String
  | string s => some s
  | _ => none

def bool? : Json → Option Bool
  | bool b => some b
  | _ => none

/-- The values of the named fields, from an object in which none of them is repeated, or from an
array of the fields in their order. A field that is not there has no value. -/
def fields? (names : List String) : Json → Option (List (Option Json))
  | object members =>
      if names.all fun name => (members.filter (·.1 == name)).length ≤ 1 then
        some (names.map fun name => members.lookup name)
      else none
  | array items =>
      if items.length ≤ names.length then
        some (items.map some ++ List.replicate (names.length - items.length) none)
      else none
  | _ => none

/-- The values of the named fields, all of which have to be there. -/
def allFields? (names : List String) (j : Json) : Option (List Json) := do
  (← fields? names j).mapM id

/-- The name of a variant, and its payload if it is written with one. -/
def variant? : Nat → Json → Option (String × Option Json)
  | _, string name => some (name, none)
  | _ + 1, object [(name, payload)] => some (name, some payload)
  | _, _ => none

/-- A variant without payload, for which `null` may be written too. -/
def isBare : Option Json → Bool
  | none => true
  | some null => true
  | some _ => false

/-- One of several variants without payload. -/
def choice? {α : Type} (table : List (String × α)) (room : Nat) (j : Json) : Option α := do
  let (name, payload) ← variant? room j
  if isBare payload then table.lookup name else none

/-- The fields of an object that has them in this order, and each one once. -/
theorem allFields?_object {names : List String} {members : List (String × Json)}
    (hnames : members.map (·.1) = names) (h : names.Nodup) :
    allFields? names (object members) = some (members.map (·.2)) := by
  subst hnames
  have hsingle : ∀ name, (members.filter (·.1 == name)).length ≤ 1 := by
    intro name
    have hcount := List.nodup_iff_count.mp h name
    rwa [List.count, List.countP_map, List.countP_eq_length_filter] at hcount
  have hall : (members.map (·.1)).all (fun name => (members.filter (·.1 == name)).length ≤ 1) :=
    List.all_eq_true.mpr fun name _ => decide_eq_true (hsingle name)
  have hlookup : members.map (fun m => members.lookup m.1) = members.map fun m => some m.2 :=
    List.map_congr_left fun m hm => (Keyed.mem_iff_lookup h).mp hm
  have hfields : fields? (members.map (·.1)) (object members) =
      some (members.map fun m => some m.2) := by
    rw [fields?, if_pos hall, List.map_map]
    exact congrArg some hlookup
  rw [allFields?, hfields]
  change (members.map fun m => some m.2).mapM id = _
  rw [List.mapM_map]
  exact List.mapM_pure

theorem choice?_string {α : Type} (table : List (String × α)) (room : Nat) (name : String) :
    choice? table room (string name) = table.lookup name := by
  cases room <;> rfl

end RecordFilter.Json
