import RecordFilter.Filter.Json
import RecordFilter.Proofs.Json.Documents

/-!
Filters sent as JSON: the text written for a filter is read back as that filter, as long as its
document nests no deeper than a reader allows.
-/

namespace RecordFilter

theorem Connective.lookup_table (c : Connective) : Connective.table.lookup c.name = some c := by
  cases c <;> rfl

theorem Operator.lookup_table (o : Operator) : Operator.table.lookup o.name = some o := by
  cases o <;> rfl

theorem Operand.ofJson?_toJson (room : Nat) (o : Operand) :
    ofJson? room o.toJson = if o.toJson.nesting ≤ room then some o else none := by
  cases o with
  | null => cases room <;> rfl
  | text s => cases room <;> rfl

theorem Operand.legible_toJson (o : Operand) : o.toJson.Legible := by
  cases o with
  | null => exact .string "Null"
  | text s => exact (Json.Legible.string s).tagged "Text"

theorem Condition.legible_toJson (c : Condition) : c.toJson.Legible := by
  refine .object ?_
  simp [Json.Legible.string, c.operand.legible_toJson]

theorem Condition.nesting_toJson (c : Condition) :
    c.toJson.nesting = c.operand.toJson.nesting + 1 := by
  simp [toJson, Json.nesting, Json.membersNesting]

theorem Condition.ofJson?_toJson (room : Nat) (c : Condition) :
    ofJson? room c.toJson = if c.toJson.nesting ≤ room then some c else none := by
  have hfields : Json.allFields? fieldNames c.toJson =
      some [.string c.field, .string c.operator.name, c.operand.toJson, .string c.link.name] := by
    rw [toJson]
    exact Json.allFields?_object rfl (by decide)
  rw [nesting_toJson]
  cases room with
  | zero => rfl
  | succ room =>
      rw [ofJson?, hfields]
      by_cases h : c.operand.toJson.nesting ≤ room
      · simp [Json.text?, Json.choice?_string, Operator.lookup_table, Connective.lookup_table,
          Operand.ofJson?_toJson, h]
      · simp [Operand.ofJson?_toJson, h]

namespace Filter

theorem ofJson?_clausesObject (room : Nat) (items : List Json) :
    ofJson? room (clausesObject items) =
      if 2 ≤ room then items.mapM (clauseOfJson? (room - 2)) else none := by
  have hfields : Json.allFields? ["clauses"] (clausesObject items) = some [.array items] :=
    Json.allFields?_object rfl (by decide)
  rcases room with _ | _ | room
  · rfl
  · rw [ofJson?, hfields]
    rfl
  · rw [ofJson?, hfields, if_pos (Nat.le_add_left 2 room)]
    rfl

theorem clauseOfJson?_condition (room : Nat) (c : Condition) :
    clauseOfJson? room (clauseToJson (.condition c)) =
      if (clauseToJson (.condition c)).nesting ≤ room then some (.condition c) else none := by
  rw [clauseToJson, Json.nesting_tagged]
  cases room with
  | zero => rfl
  | succ room =>
      rw [Json.tagged, clauseOfJson?, Condition.ofJson?_toJson]
      by_cases h : c.toJson.nesting ≤ room <;> simp [h]

theorem clauseOfJson?_group (room : Nat) (l : Connective) (inner : Filter) :
    clauseOfJson? room (clauseToJson (.group l inner)) =
      if 2 ≤ room then (ofJson? (room - 2) (toJson inner)).map (.group l) else none := by
  have hfields : Json.allFields? ["combinator", "criteria"] (.object
      [("combinator", .string l.name), ("criteria", clausesObject (clausesToJson inner))]) =
        some [.string l.name, toJson inner] :=
    Json.allFields?_object rfl (by decide)
  rcases room with _ | _ | room
  · rfl
  · rfl
  · rw [if_pos (Nat.le_add_left 2 room), clauseToJson, Json.tagged, clauseOfJson?, groupOfJson?,
      hfields]
    change ((Json.choice? Connective.table room (.string l.name)).bind fun k =>
      (ofJson? room (toJson inner)).bind fun f => some (Clause.group k f)) = _
    rw [Json.choice?_string, Connective.lookup_table, Option.bind_some]
    exact Option.map_eq_bind.symm

theorem nesting_clausesObject (items : List Json) :
    (clausesObject items).nesting = Json.itemsNesting items + 2 := by
  simp [clausesObject, Json.nesting, Json.membersNesting]

theorem nesting_group (l : Connective) (inner : Filter) :
    (clauseToJson (.group l inner)).nesting = (toJson inner).nesting + 2 := by
  simp [clauseToJson, toJson, Json.nesting_tagged, Json.nesting, Json.membersNesting]

theorem mapM_clausesToJson_cons {room : Nat} {clause : Clause} {rest : Filter}
    (hclause : clauseOfJson? room (clauseToJson clause) =
      if (clauseToJson clause).nesting ≤ room then some clause else none)
    (hrest : (clausesToJson rest).mapM (clauseOfJson? room) =
      if Json.itemsNesting (clausesToJson rest) ≤ room then some rest else none) :
    (clausesToJson (clause :: rest)).mapM (clauseOfJson? room) =
      if Json.itemsNesting (clausesToJson (clause :: rest)) ≤ room then some (clause :: rest)
      else none := by
  rw [clausesToJson, List.mapM_cons, hclause, hrest, Json.itemsNesting]
  simp only [Nat.max_le]
  by_cases hfirst : (clauseToJson clause).nesting ≤ room
  · by_cases hothers : Json.itemsNesting (clausesToJson rest) ≤ room <;> simp [hfirst, hothers]
  · simp [hfirst]

theorem mapM_clausesToJson (room : Nat) (f : Filter) :
    (clausesToJson f).mapM (clauseOfJson? room) =
      if Json.itemsNesting (clausesToJson f) ≤ room then some f else none := by
  induction f using Filter.induction generalizing room with
  | nil => rfl
  | condition c rest ih => exact mapM_clausesToJson_cons (clauseOfJson?_condition room c) (ih room)
  | group l inner rest ihInner ihRest =>
      refine mapM_clausesToJson_cons ?_ (ihRest room)
      rw [clauseOfJson?_group, nesting_group, toJson, ofJson?_clausesObject, ihInner,
        nesting_clausesObject]
      split_ifs <;> first | rfl | omega

/-- A filter is read back where its document nests no deeper than there is room, and nowhere else. -/
theorem ofJson?_toJson (room : Nat) (f : Filter) :
    ofJson? room f.toJson = if f.toJson.nesting ≤ room then some f else none := by
  rw [toJson, ofJson?_clausesObject, mapM_clausesToJson, nesting_clausesObject]
  split_ifs <;> first | rfl | omega

mutual

/-- How many groups of a filter are open at once. -/
def depth : Filter → Nat
  | [] => 0
  | clause :: rest => max (clauseDepth clause) (depth rest)

def clauseDepth : Clause → Nat
  | .condition _ => 0
  | .group _ inner => depth inner + 1

end

theorem nesting_condition_le (c : Condition) : (clauseToJson (.condition c)).nesting ≤ 3 := by
  have hoperand : c.operand.toJson.nesting ≤ 1 := by
    cases c.operand with
    | null => exact Nat.zero_le 1
    | text s => exact Nat.le_refl 1
  rw [clauseToJson, Json.nesting_tagged, Condition.nesting_toJson]
  omega

/-- Each group adds four containers: itself, its fields, and the filter in it with its clauses. -/
theorem itemsNesting_clausesToJson_le (f : Filter) :
    Json.itemsNesting (clausesToJson f) ≤ 4 * depth f + 3 := by
  induction f using Filter.induction with
  | nil => simp [clausesToJson, Json.itemsNesting]
  | condition c rest ih =>
      have hc := nesting_condition_le c
      rw [clausesToJson, Json.itemsNesting, depth, clauseDepth]
      omega
  | group l inner rest ihInner ihRest =>
      rw [clausesToJson, Json.itemsNesting, nesting_group, toJson, nesting_clausesObject, depth,
        clauseDepth]
      omega

theorem legible_clausesObject {items : List Json} (h : ∀ j ∈ items, j.Legible) :
    (clausesObject items).Legible := by
  refine .object ?_
  intro m hm
  rw [List.mem_singleton.mp hm]
  exact .array h

theorem legible_of_mem_clausesToJson (f : Filter) : ∀ j ∈ clausesToJson f, j.Legible := by
  induction f using Filter.induction with
  | nil => nofun
  | condition c rest ih =>
      rw [clausesToJson, List.forall_mem_cons, clauseToJson]
      exact ⟨c.legible_toJson.tagged "Condition", ih⟩
  | group l inner rest ihInner ihRest =>
      have hfields : (Json.object [("combinator", .string l.name),
          ("criteria", clausesObject (clausesToJson inner))]).Legible := by
        refine .object ?_
        simp [Json.Legible.string, legible_clausesObject ihInner]
      rw [clausesToJson, List.forall_mem_cons, clauseToJson]
      exact ⟨hfields.tagged "Group", ihRest⟩

theorem legible_toJson (f : Filter) : f.toJson.Legible :=
  legible_clausesObject (legible_of_mem_clausesToJson f)

theorem ofJsonText?_text_toJson (f : Filter) :
    ofJsonText? f.toJson.text = if f.toJson.nesting ≤ Json.nestingLimit then some f else none := by
  rw [ofJsonText?, Json.ofText?_text f.legible_toJson, Option.bind_some, ofJson?_toJson]

theorem ofJsonText?_text_of_depth_le {f : Filter} (h : f.depth ≤ 30) :
    ofJsonText? f.toJson.text = some f := by
  have hnesting : f.toJson.nesting ≤ Json.nestingLimit := by
    have hitems := itemsNesting_clausesToJson_le f
    rw [toJson, nesting_clausesObject, Json.nestingLimit]
    omega
  rw [ofJsonText?_text_toJson, if_pos hnesting]

/-- Quotes, backslashes, controls and characters outside the first plane, two groups deep. -/
theorem ofJsonText?_text_of_depth_le_escaped :
    let f : Filter :=
      [.condition ⟨"na\"me\\", .like, .text "\x00\t\x1f/\\u00e9 😀 'x' \"", .or⟩,
        .group .and [.group .or [.condition ⟨"", .between, .null, .and⟩], .group .and []]]
    f.depth = 2 ∧ ofJsonText? f.toJson.text = some f := by
  intro f
  have hdepth : f.depth = 2 := by decide
  exact ⟨hdepth, ofJsonText?_text_of_depth_le (by rw [hdepth]; decide)⟩

end Filter

end RecordFilter
