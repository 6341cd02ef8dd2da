import RecordFilter.Filter.Basic
import RecordFilter.Scalar.Basic

/-!
Queries: what a store is asked for, over fields of known kinds. A query is composed here and carried
out elsewhere.
-/

namespace RecordFilter

inductive Comparison where
  | equal
  | notEqual
  | lessThan
  | lessThanOrEqual
  | greaterThan
  | greaterThanOrEqual
  deriving DecidableEq

inductive Query where
  /-- Every record. -/
  | all
  | compare (field : String) (comparison : Comparison) (value : Scalar)
  /-- The records whose field holds the text somewhere, or nowhere if negated. -/
  | contains (field : String) (value : String) (negated : Bool)
  /-- Both bounds belong to the range. -/
  | between (field : String) (least greatest : Scalar)
  | isNull (field : String)
  | isNotNull (field : String)
  | and (left right : Query)
  | or (left right : Query)
  deriving DecidableEq

namespace Query

/-- Both queries; every record and another query are the other query. -/
def both : Query → Query → Query
  | all, q => q
  | p, q => and p q

/-- One query or the other; every record or another query are every record. -/
def either : Query → Query → Query
  | all, _ => all
  | p, q => or p q

def join : Connective → Query → Query → Query
  | .and => both
  | .or => either

theorem both_of_ne_all {p : Query} (h : p ≠ all) (q : Query) : both p q = and p q := by
  cases p <;> simp_all [both]

theorem either_of_ne_all {p : Query} (h : p ≠ all) (q : Query) : either p q = or p q := by
  cases p <;> simp_all [either]

end Query

end RecordFilter
