import RecordFilter.Query.Basic
import RecordFilter.Scalar.Json
import RecordFilter.Json.Reader

/-!
Queries in JSON: each form of query is a variant with its parts as members, and two queries are
joined in an array.
-/

namespace RecordFilter

namespace Comparison

def name : Comparison → String
  | equal => "Equal"
  | notEqual => "NotEqual"
  | lessThan => "LessThan"
  | lessThanOrEqual => "LessThanOrEqual"
  | greaterThan => "GreaterThan"
  | greaterThanOrEqual => "GreaterThanOrEqual"

def all : List Comparison :=
  [equal, notEqual, lessThan, lessThanOrEqual, greaterThan, greaterThanOrEqual]

def table : List (String × Comparison) :=
  all.map fun c => (c.name, c)

end Comparison

namespace Query

def toJson : Query → Json
  | all => .string "True"
  | compare field comparison value =>
      .tagged "Compare" (.object
        [("field", .string field), ("comparison", .string comparison.name),
          ("value", value.toJson)])
  | contains field value negated =>
      .tagged "Contains" (.object
        [("field", .string field), ("value", .string value), ("negated", .bool negated)])
  | between field least greatest =>
      .tagged "Between" (.object
        [("field", .string field), ("min", least.toJson), ("max", greatest.toJson)])
  | isNull field => .tagged "IsNull" (.string field)
  | isNotNull field => .tagged "IsNotNull" (.string field)
  | and left right => .tagged "And" (.array [toJson left, toJson right])
  | or left right => .tagged "Or" (.array [toJson left, toJson right])

def compareOfJson? : Nat → Json → Option Query
  | 0, _ => none
  | room + 1, j => do
      match ← Json.allFields? ["field", "comparison", "value"] j with
      | [field, comparison, value] =>
          return .compare (← field.text?) (← Json.choice? Comparison.table room comparison)
            (← Scalar.ofJson? room value)
      | _ => none

def containsOfJson? : Nat → Json → Option Query
  | 0, _ => none
  | _ + 1, j => do
      match ← Json.allFields? ["field", "value", "negated"] j with
      | [field, value, negated] =>
          return .contains (← field.text?) (← value.text?) (← negated.bool?)
      | _ => none

def betweenOfJson? : Nat → Json → Option Query
  | 0, _ => none
  | room + 1, j => do
      match ← Json.allFields? ["field", "min", "max"] j with
      | [field, least, greatest] =>
          return .between (← field.text?) (← Scalar.ofJson? room least)
            (← Scalar.ofJson? room greatest)
      | _ => none

mutual

def ofJson? : Nat → Json → Option Query
  | _, .string "True" => some all
  | room + 1, .object [(name, payload)] =>
      match name with
      | "True" => if Json.isBare (some payload) then some all else none
      | "Compare" => compareOfJson? room payload
      | "Contains" => containsOfJson? room payload
      | "Between" => betweenOfJson? room payload
      | "IsNull" => payload.text?.map isNull
      | "IsNotNull" => payload.text?.map isNotNull
      | "And" => (pairOfJson? room payload).map fun (left, right) => .and left right
      | "Or" => (pairOfJson? room payload).map fun (left, right) => .or left right
      | _ => none
  | _, _ => none

def pairOfJson? : Nat → Json → Option (Query × Query)
  | room + 1, .array [left, right] => do
      return (← ofJson? room left, ← ofJson? room right)
  | _, _ => none

end

/-- The query of a JSON text. -/
def ofJsonText? (s : String) : Option Query :=
  (Json.ofText? s).bind (ofJson? Json.nestingLimit)

end Query

end RecordFilter
