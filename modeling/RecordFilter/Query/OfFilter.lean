import RecordFilter.Notice
import RecordFilter.Query.Basic
import RecordFilter.Scalar.Compare
import RecordFilter.Schema.Registry
import RecordFilter.Settings

/-!
Queries from filters. Each condition has to name a field of the catalog, its literal is converted to
the kind of that field, and the clauses are joined from left to right. A tenant narrows the whole.
-/

namespace RecordFilter

inductive QueryError where
  | unknownField (field : String) (recordType : String)
  | invalidRange (literal : String)
  | nullOperand (field : String) (operator : Operator)
  deriving DecidableEq

def QueryError.message : QueryError → String
  | unknownField field recordType =>
      "Unknown filter field " ++ Text.quoted field ++ " for " ++ recordType
  | invalidRange literal => "Invalid range " ++ Text.quoted literal ++ ": expected min:max"
  | nullOperand field operator =>
      "Operator " ++ operator.symbol ++ " cannot be used with null on field " ++ Text.quoted field

/-- The value of a literal in a field of some kind. A literal without one stays text, and that is
reported. -/
def Kind.valueOf (kind : Kind) (field : String) (literal : String) : Outcome QueryError Scalar :=
  match kind.convert literal with
  | .ok v => pure v
  | .error e => do
      .notify (.comparedAsText field e)
      pure (.text literal)

namespace Condition

def queryForNull (field : String) : Operator → Outcome QueryError Query
  | .equal => pure (.isNull field)
  | .notEqual => pure (.isNotNull field)
  | operator => .fail (.nullOperand field operator)

def comparisonQuery (field : String) (kind : Kind) (comparison : Comparison) (literal : String) :
    Outcome QueryError Query := do
  let value ← kind.valueOf field literal
  return .compare field comparison value

def rangeQuery (field : String) (kind : Kind) (literal : String) : Outcome QueryError Query :=
  match rangeBounds? literal.toList with
  | none => .fail (.invalidRange literal)
  | some (least, greatest) => do
      let low ← kind.valueOf field (String.ofList least)
      let high ← kind.valueOf field (String.ofList greatest)
      return .between field low high

def queryForText (field : String) (kind : Kind) (literal : String) :
    Operator → Outcome QueryError Query
  | .equal => comparisonQuery field kind .equal literal
  | .notEqual => comparisonQuery field kind .notEqual literal
  | .lessThan => comparisonQuery field kind .lessThan literal
  | .lessThanOrEqual => comparisonQuery field kind .lessThanOrEqual literal
  | .greaterThan => comparisonQuery field kind .greaterThan literal
  | .greaterThanOrEqual => comparisonQuery field kind .greaterThanOrEqual literal
  | .like => pure (.contains field literal false)
  | .notLike => pure (.contains field literal true)
  | .between => rangeQuery field kind literal

/-- The query of one condition. -/
def query (catalog : Catalog) (c : Condition) : Outcome QueryError Query :=
  match catalog.kind? c.field with
  | none => .fail (.unknownField c.field catalog.recordType)
  | some kind =>
      match c.operand with
      | .null => queryForNull c.field c.operator
      | .text literal => queryForText c.field kind literal c.operator

end Condition

namespace Query

/-- The query so far, joined with that of the next clause. -/
def joinNext (soFar : Option Query) (link : Connective) (next : Query) : Query :=
  match soFar with
  | none => next
  | some query => query.join link next

mutual

/-- Goes on with the query of the clauses before. A group without conditions asks for nothing and
is passed over. -/
def ofClauses (catalog : Catalog) (soFar : Option Query) :
    List Clause → Outcome QueryError (Option Query)
  | [] => pure soFar
  | clause :: rest => do
      match ← ofClause catalog clause with
      | none => ofClauses catalog soFar rest
      | some next => ofClauses catalog (some (joinNext soFar clause.link next)) rest

def ofClause (catalog : Catalog) : Clause → Outcome QueryError (Option Query)
  | .condition c => do
      let q ← c.query catalog
      return some q
  | .group _ inner => ofClauses catalog none inner

end

theorem ofClauses_nil (catalog : Catalog) (soFar : Option Query) :
    ofClauses catalog soFar [] = pure soFar := by
  rw [ofClauses]

theorem ofClauses_condition (catalog : Catalog) (soFar : Option Query) (c : Condition)
    (rest : Filter) :
    ofClauses catalog soFar (.condition c :: rest) =
      c.query catalog >>= fun q => ofClauses catalog (some (joinNext soFar c.link q)) rest := by
  rw [ofClauses, ofClause, bind_assoc]
  simp only [pure_bind, Clause.link]

/-- The queries so far, with what a group asks for, if it asks for anything. -/
def joinGroup (soFar : Option Query) (link : Connective) : Option Query → Option Query
  | none => soFar
  | some q => some (joinNext soFar link q)

theorem ofClauses_group (catalog : Catalog) (soFar : Option Query) (l : Connective)
    (inner rest : Filter) :
    ofClauses catalog soFar (.group l inner :: rest) =
      ofClauses catalog none inner >>= fun found =>
        ofClauses catalog (joinGroup soFar l found) rest := by
  rw [ofClauses, ofClause]
  refine bind_congr fun found => ?_
  cases found <;> rfl

/-- Only the records of a tenant; no tenant and a tenant without a name narrow nothing. -/
def restrictTo (settings : Settings) (tenant : Option String) (query : Query) : Query :=
  match tenant with
  | none => query
  | some "" => query
  | some name => query.both (.compare settings.tenantField .equal (.text name))

/-- The query of a filter for one tenant, or for all of them. -/
def ofFilter (settings : Settings) (catalog : Catalog) (tenant : Option String) (f : Filter) :
    Outcome QueryError Query := do
  let query ← ofClauses catalog none f
  return restrictTo settings tenant (query.getD all)

end Query

/-- The query of a filter by the catalog that the registry holds for the record type. The record
type counts as used, whether there is such a query or not. -/
def Registry.query {κ : Type} [DecidableEq κ] (registry : Registry κ) (key : κ) (schema : Schema)
    (settings : Settings) (tenant : Option String) (f : Filter) :
    Outcome QueryError Query × Registry κ :=
  let (entry, used) := registry.obtain key schema
  (Query.ofFilter settings entry.catalog tenant f, used)

end RecordFilter
