import RecordFilter.Filter.Basic
import RecordFilter.Json.Decode
import RecordFilter.Json.Reader

/-!
Filters in JSON: a condition or a group is a variant with its fields as members, and a filter is an
object with its clauses.
-/

namespace RecordFilter

def Connective.name : Connective → String
  | and => "And"
  | or => "Or"

def Connective.table : List (String × Connective) :=
  [Connective.and, .or].map fun c => (c.name, c)

def Operator.name : Operator → String
  | equal => "Equal"
  | notEqual => "NotEqual"
  | lessThan => "LessThan"
  | lessThanOrEqual => "LessThanOrEqual"
  | greaterThan => "GreaterThan"
  | greaterThanOrEqual => "GreaterThanOrEqual"
  | like => "Like"
  | notLike => "NotLike"
  | between => "Between"

def Operator.table : List (String × Operator) :=
  Operator.all.map fun o => (o.name, o)

namespace Operand

def toJson : Operand → Json
  | text s => .tagged "Text" (.string s)
  | null => .string "Null"

def ofJson? (room : Nat) (j : Json) : Option Operand := do
  let (name, payload) ← Json.variant? room j
  match name, payload with
  | "Null", payload => if Json.isBare payload then some null else none
  | "Text", some (.string s) => some (text s)
  | _, _ => none

end Operand

namespace Condition

def fieldNames : List String :=
  ["field", "operator", "operand", "combinator"]

def toJson (c : Condition) : Json :=
  .object
    [("field", .string c.field), ("operator", .string c.operator.name),
      ("operand", c.operand.toJson), ("combinator", .string c.link.name)]

def ofJson? : Nat → Json → Option Condition
  | 0, _ => none
  | room + 1, j => do
      match ← Json.allFields? fieldNames j with
      | [field, operator, operand, link] =>
          return ⟨← field.text?, ← Json.choice? Operator.table room operator,
            ← Operand.ofJson? room operand, ← Json.choice? Connective.table room link⟩
      | _ => none

end Condition

namespace Filter

def clausesObject (clauses : List Json) : Json :=
  .object [("clauses", .array clauses)]

mutual

def clausesToJson : List Clause → List Json
  | [] => []
  | clause :: rest => clauseToJson clause :: clausesToJson rest

def clauseToJson : Clause → Json
  | .condition c => .tagged "Condition" c.toJson
  | .group l inner =>
      .tagged "Group" (.object
        [("combinator", .string l.name), ("criteria", clausesObject (clausesToJson inner))])

end

def toJson (f : Filter) : Json :=
  clausesObject (clausesToJson f)

mutual

def ofJson? : Nat → Json → Option Filter
  | 0, _ => none
  | room + 1, j => do
      match ← Json.allFields? ["clauses"] j with
      | [clauses] => clausesOfJson? room clauses
      | _ => none

def clausesOfJson? : Nat → Json → Option (List Clause)
  | room + 1, .array items => items.mapM (clauseOfJson? room)
  | _, _ => none

def clauseOfJson? : Nat → Json → Option Clause
  | room + 1, .object [("Condition", payload)] => (Condition.ofJson? room payload).map .condition
  | room + 1, .object [("Group", payload)] => groupOfJson? room payload
  | _, _ => none

def groupOfJson? : Nat → Json → Option Clause
  | 0, _ => none
  | room + 1, j => do
      match ← Json.allFields? ["combinator", "criteria"] j with
      | [link, inner] =>
          return .group (← Json.choice? Connective.table room link) (← ofJson? room inner)
      | _ => none

end

/-- The filter of a JSON text. -/
def ofJsonText? (s : String) : Option Filter :=
  (Json.ofText? s).bind (ofJson? Json.nestingLimit)

end Filter

end RecordFilter
