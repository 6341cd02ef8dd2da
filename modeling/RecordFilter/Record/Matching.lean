import RecordFilter.Notice
import RecordFilter.Filter.Basic
import RecordFilter.Record.Basic
import RecordFilter.Scalar.Compare

/-!
Records against filters. Clauses are joined from left to right, and every condition is tried, so
that a field missing from the record is reported whatever the other conditions say.
-/

namespace RecordFilter

inductive MatchError where
  /-- The record and the filter disagree about the fields there are. -/
  | missingField (name : String)
  | invalidRange (literal : String)
  deriving DecidableEq

namespace MatchError

def message : MatchError → String
  | missingField name => "Field " ++ Text.quoted name ++ " does not exist on the record"
  | invalidRange literal => "Invalid range " ++ Text.quoted literal ++ ": expected min:max"

/-- A missing field is a fault of the program, not of the text of the filter. -/
def isProgramFault : MatchError → Bool
  | missingField _ => true
  | invalidRange _ => false

end MatchError

namespace Condition

/-- Null has no order and no text: only being null or not can be asked of it. -/
def holdsForNull (v : Scalar) : Operator → Except MatchError Bool
  | .equal => .ok v.isNull
  | .notEqual => .ok !v.isNull
  | .between => .error (.invalidRange "null")
  | _ => .ok false

def holdsForText (v : Scalar) (operator : Operator) (literal : String) :
    Except MatchError Bool :=
  let s := literal.toList
  match operator with
  | .equal => .ok (v.matchesLiteral s)
  | .notEqual => .ok !v.matchesLiteral s
  | .like => .ok (v.contains s)
  | .notLike => .ok !v.contains s
  | .lessThan => .ok (v.compareTo? s == some .lt)
  | .lessThanOrEqual => .ok (v.compareTo? s == some .lt || v.compareTo? s == some .eq)
  | .greaterThan => .ok (v.compareTo? s == some .gt)
  | .greaterThanOrEqual => .ok (v.compareTo? s == some .gt || v.compareTo? s == some .eq)
  | .between =>
      match rangeBounds? s with
      | some (least, greatest) => .ok (v.within least greatest)
      | none => .error (.invalidRange literal)

/-- Whether the condition holds for the value of its field. -/
def holdsFor (c : Condition) (v : Scalar) : Except MatchError Bool :=
  match c.operand with
  | .null => holdsForNull v c.operator
  | .text literal => holdsForText v c.operator literal

/-- Whether the condition holds on a record. -/
def holdsOn (c : Condition) (r : Record) : Outcome MatchError Bool :=
  match r.field? c.field with
  | none => do
      .notify (.missingField c.field)
      .fail (.missingField c.field)
  | some v => .ofExcept (c.holdsFor v)

theorem result_holdsOn {c : Condition} {r : Record} {v : Scalar}
    (h : r.field? c.field = some v) : (c.holdsOn r).result = c.holdsFor v := by
  rw [holdsOn, h]
  rfl

end Condition

namespace Filter

/-- What holds so far, joined with what holds of the next clause. -/
def joinResult (soFar : Option Bool) (link : Connective) (next : Bool) : Bool :=
  match soFar with
  | none => next
  | some held => link.eval held next

mutual

/-- Goes on with what the clauses before have given; without any clause, everything matches. -/
def holdsFrom (r : Record) (soFar : Option Bool) : Filter → Outcome MatchError Bool
  | [] => pure (soFar.getD true)
  | clause :: rest => do
      let next ← clauseHoldsOn r clause
      holdsFrom r (some (joinResult soFar clause.link next)) rest

def clauseHoldsOn (r : Record) : Clause → Outcome MatchError Bool
  | .condition c => c.holdsOn r
  | .group _ inner => holdsFrom r none inner

end

theorem holdsFrom_nil (r : Record) (soFar : Option Bool) :
    holdsFrom r soFar [] = pure (soFar.getD true) := by
  rw [holdsFrom]

theorem holdsFrom_condition (r : Record) (soFar : Option Bool) (c : Condition) (rest : Filter) :
    holdsFrom r soFar (.condition c :: rest) =
      c.holdsOn r >>= fun next => holdsFrom r (some (joinResult soFar c.link next)) rest := by
  rw [holdsFrom, clauseHoldsOn]
  rfl

theorem holdsFrom_group (r : Record) (soFar : Option Bool) (l : Connective)
    (inner rest : Filter) :
    holdsFrom r soFar (.group l inner :: rest) =
      holdsFrom r none inner >>= fun next =>
        holdsFrom r (some (joinResult soFar l next)) rest := by
  rw [holdsFrom, clauseHoldsOn]
  rfl

/-- Whether the filter holds on a record. -/
def holdsOn (f : Filter) (r : Record) : Outcome MatchError Bool :=
  holdsFrom r none f

theorem holdsOn_nil (r : Record) : holdsOn [] r = pure true := by
  exact holdsFrom_nil r none

end Filter

/-- What a filter says of one record. -/
inductive Verdict (ρ : Type) where
  | pass (record : ρ)
  | skip (record : ρ)
  | error (record : ρ) (cause : MatchError)

namespace Filter

variable {ρ : Type}

def verdict (view : ρ → Record) (f : Filter) (x : ρ) : Verdict ρ :=
  match (holdsOn f (view x)).result with
  | .ok true => .pass x
  | .ok false => .skip x
  | .error e => .error x e

/-- One verdict for each record, in their order. -/
def verdicts (view : ρ → Record) (f : Filter) (records : List ρ) : List (Verdict ρ) :=
  records.map (verdict view f)

def selectFrom (view : ρ → Record) (f : Filter) : List ρ → Outcome MatchError (List ρ)
  | [] => pure []
  | x :: records => do
      let kept ← holdsOn f (view x)
      let rest ← selectFrom view f records
      pure (if kept then x :: rest else rest)

/-- The records on which the filter holds, up to the first one that it cannot be tried on. -/
def select (view : ρ → Record) (f : Filter) (records : List ρ) : Outcome MatchError (List ρ) :=
  if f.isEmpty then pure records else selectFrom view f records

end Filter

end RecordFilter
