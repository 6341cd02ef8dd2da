import RecordFilter.Query.Basic

/-!
Queries as the condition of an SQL statement. Values never enter the text: each stands as a numbered
placeholder, and the values are listed beside it.
-/

namespace RecordFilter

/-- A piece of a statement under construction. -/
inductive Sql.Fragment where
  | text (s : String)
  | argument (value : Scalar)
  deriving DecidableEq

structure Sql.Statement where
  text : String
  arguments : List Scalar
  deriving DecidableEq

namespace Sql

def placeholder (n : Nat) : String :=
  "$" ++ String.ofList (Nat.toDigits 10 n)

/-- Joins the pieces, numbering the arguments from `n` on. -/
def assembleFrom (n : Nat) : List Fragment → Statement
  | [] => ⟨"", []⟩
  | .text s :: rest =>
      let tail := assembleFrom n rest
      ⟨s ++ tail.text, tail.arguments⟩
  | .argument v :: rest =>
      let tail := assembleFrom (n + 1) rest
      ⟨placeholder n ++ tail.text, v :: tail.arguments⟩

theorem assembleFrom_append (n : Nat) (xs ys : List Fragment) :
    assembleFrom n (xs ++ ys) =
      ⟨(assembleFrom n xs).text ++
          (assembleFrom (n + (assembleFrom n xs).arguments.length) ys).text,
        (assembleFrom n xs).arguments ++
          (assembleFrom (n + (assembleFrom n xs).arguments.length) ys).arguments⟩ := by
  induction xs generalizing n with
  | nil => simp [assembleFrom]
  | cons x xs ih =>
      cases x with
      | text s => simp [assembleFrom, ih, String.append_assoc]
      | argument v =>
          simp [assembleFrom, ih, String.append_assoc, Nat.add_assoc, Nat.add_comm 1]

def assemble (fragments : List Fragment) : Statement :=
  assembleFrom 1 fragments

/-- A quote inside a quoted name is written twice. -/
def doubleQuotes (s : List Char) : List Char :=
  s.flatMap fun c => if c = '"' then ['"', '"'] else [c]

def quotedPart (s : List Char) : List Char :=
  '"' :: doubleQuotes s ++ ['"']

/-- The parts of a dotted name, each in quotes. -/
def identifier (name : String) : String :=
  String.ofList (['.'].intercalate ((name.toList.splitOn '.').map quotedPart))

def comparisonSymbol : Comparison → String
  | .equal => "="
  | .notEqual => "<>"
  | .lessThan => "<"
  | .lessThanOrEqual => "<="
  | .greaterThan => ">"
  | .greaterThanOrEqual => ">="

/-- The characters that a pattern would read as more than themselves, each after a backslash. -/
def escapePattern (s : List Char) : List Char :=
  s.flatMap fun c => if c = '\\' ∨ c = '%' ∨ c = '_' then ['\\', c] else [c]

theorem escapePattern_cons (c : Char) (s : List Char) :
    escapePattern (c :: s) =
      (if c = '\\' ∨ c = '%' ∨ c = '_' then ['\\', c] else [c]) ++ escapePattern s :=
  rfl

/-- The pattern of the texts that hold `s` somewhere. -/
def containsPattern (s : String) : String :=
  String.ofList ('%' :: escapePattern s.toList ++ ['%'])

end Sql

namespace Query

open Sql

/-- The pieces of a query. A disjunction stands in parentheses and a conjunction does not. -/
def fragments : Query → List Fragment
  | all => [.text "TRUE"]
  | compare field comparison value =>
      [.text (identifier field), .text (" " ++ comparisonSymbol comparison ++ " "),
        .argument value]
  | contains field value negated =>
      [.text (identifier field), .text (if negated then " NOT LIKE " else " LIKE "),
        .argument (.text (containsPattern value))]
  | between field least greatest =>
      [.text (identifier field), .text " BETWEEN ", .argument least, .text " AND ",
        .argument greatest]
  | isNull field => [.text (identifier field), .text " IS NULL"]
  | isNotNull field => [.text (identifier field), .text " IS NOT NULL"]
  | and left right => fragments left ++ .text " AND " :: fragments right
  | or left right =>
      .text "(" :: fragments left ++ .text " OR " :: fragments right ++ [.text ")"]

def toSql (q : Query) : Statement :=
  assemble q.fragments

end Query

end RecordFilter
