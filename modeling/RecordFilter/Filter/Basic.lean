/-!
Filters: conditions on named fields, joined from left to right and grouped to any depth.
-/

namespace RecordFilter

/-- How a clause is joined to everything before it on its own level. -/
inductive Connective where
  | and
  | or
  deriving DecidableEq

namespace Connective

def symbol : Connective → Char
  | and => '&'
  | or => '|'

def ofSymbol? : Char → Option Connective
  | '&' => some and
  | '|' => some or
  | _ => none

def ofText? (s : String) : Option Connective :=
  match s.toList with
  | [c] => ofSymbol? c
  | _ => none

def eval : Connective → Bool → Bool → Bool
  | and, p, q => p && q
  | or, p, q => p || q

theorem ofSymbol?_symbol (c : Connective) : ofSymbol? c.symbol = some c := by
  cases c <;> rfl

end Connective

inductive Operator where
  | equal
  | notEqual
  | lessThan
  | lessThanOrEqual
  | greaterThan
  | greaterThanOrEqual
  | like
  | notLike
  | between
  deriving DecidableEq

namespace Operator

def symbol : Operator → String
  | equal => "="
  | notEqual => "!="
  | lessThan => "<"
  | lessThanOrEqual => "<="
  | greaterThan => ">"
  | greaterThanOrEqual => ">="
  | like => "~"
  | notLike => "!~"
  | between => "<>"

def all : List Operator :=
  [equal, notEqual, like, notLike, lessThan, lessThanOrEqual, greaterThan, greaterThanOrEqual,
    between]

def ofSymbol? (s : String) : Option Operator :=
  all.find? (·.symbol == s)

theorem ofSymbol?_symbol (o : Operator) : ofSymbol? o.symbol = some o := by
  cases o <;> decide

end Operator

/-- The right-hand side of a condition: text without its quotes, or the bare word for null. -/
inductive Operand where
  | text (s : String)
  | null
  deriving DecidableEq

namespace Operand

def text? : Operand → Option String
  | text s => some s
  | null => none

def isNull : Operand → Bool
  | text _ => false
  | null => true

end Operand

/-- The connective of the first clause of a level has nothing to join. -/
structure Condition where
  field : String
  operator : Operator
  operand : Operand
  link : Connective := .or
  deriving DecidableEq

inductive Clause where
  | condition (c : Condition)
  | group (link : Connective) (inner : List Clause)

/-- The clauses of one level in their order. -/
abbrev Filter := List Clause

namespace Clause

def link : Clause → Connective
  | condition c => c.link
  | group l _ => l

mutual

def decEq : (a b : Clause) → Decidable (a = b)
  | condition c, condition d =>
      if h : c = d then isTrue (h ▸ rfl) else isFalse fun e => h (Clause.condition.inj e)
  | group l inner, group k other =>
      if h : l = k then
        match decEqList inner other with
        | isTrue e => isTrue (h ▸ e ▸ rfl)
        | isFalse ne => isFalse fun e => ne (Clause.group.inj e).2
      else isFalse fun e => h (Clause.group.inj e).1
  | condition _, group _ _ => isFalse nofun
  | group _ _, condition _ => isFalse nofun

def decEqList : (a b : List Clause) → Decidable (a = b)
  | [], [] => isTrue rfl
  | x :: xs, y :: ys =>
      match decEq x y with
      | isTrue h =>
          match decEqList xs ys with
          | isTrue e => isTrue (h ▸ e ▸ rfl)
          | isFalse ne => isFalse fun e => ne (List.cons.inj e).2
      | isFalse h => isFalse fun e => h (List.cons.inj e).1
  | [], _ :: _ => isFalse nofun
  | _ :: _, [] => isFalse nofun

end

instance : DecidableEq Clause :=
  decEq

end Clause

namespace Filter

/-- Induction over the clauses of a level that also descends into its groups. -/
@[elab_as_elim]
theorem induction {motive : Filter → Prop} (nil : motive [])
    (condition : ∀ c rest, motive rest → motive (.condition c :: rest))
    (group : ∀ l inner rest, motive inner → motive rest → motive (.group l inner :: rest)) :
    ∀ f, motive f
  | [] => nil
  | .condition c :: rest => condition c rest (Filter.induction nil condition group rest)
  | .group l inner :: rest =>
      group l inner rest (Filter.induction nil condition group inner)
        (Filter.induction nil condition group rest)

mutual

/-- How many conditions a filter holds, those inside groups included. -/
def size : Filter → Nat
  | [] => 0
  | clause :: rest => clauseSize clause + size rest

def clauseSize : Clause → Nat
  | .condition _ => 1
  | .group _ inner => size inner

end

/-- Joins the first of some conditions by another connective. -/
def relink (l : Connective) : List Condition → List Condition
  | [] => []
  | c :: cs => { c with link := l } :: cs

mutual

/-- Every condition in the order of the text. The first condition of a group carries the
connective of the group. -/
def conditions : Filter → List Condition
  | [] => []
  | clause :: rest => clauseConditions clause ++ conditions rest

def clauseConditions : Clause → List Condition
  | .condition c => [c]
  | .group l inner => relink l (conditions inner)

end

/-- The members of a list in the order of their first appearance. -/
def distinct : List String → List String
  | [] => []
  | s :: rest => s :: (distinct rest).filter (· != s)

def fieldNames (f : Filter) : List String :=
  distinct ((conditions f).map (·.field))

theorem length_relink (l : Connective) (cs : List Condition) :
    (relink l cs).length = cs.length := by
  cases cs <;> rfl

theorem relink_eq_nil_iff {l : Connective} {cs : List Condition} :
    relink l cs = [] ↔ cs = [] := by
  cases cs <;> simp [relink]

/-- What does not depend on the connectives of some conditions is not changed by joining them
otherwise. -/
theorem forall_mem_relink_iff {P : Condition → Prop} {l : Connective} {cs : List Condition}
    (hP : ∀ c : Condition, P { c with link := l } ↔ P c) :
    (∀ c ∈ relink l cs, P c) ↔ ∀ c ∈ cs, P c := by
  cases cs with
  | nil => rfl
  | cons c cs => simp [relink, hP c]

theorem conditions_nil : conditions [] = [] := by
  rw [conditions]

theorem conditions_condition (c : Condition) (rest : Filter) :
    conditions (.condition c :: rest) = c :: conditions rest := by
  rw [conditions, clauseConditions]
  rfl

theorem conditions_group (l : Connective) (inner rest : Filter) :
    conditions (.group l inner :: rest) = relink l (conditions inner) ++ conditions rest := by
  rw [conditions, clauseConditions]

end Filter

end RecordFilter
