import RecordFilter.Filter.Basic

/-!
Filters in their own syntax. The syntax has no escapes: text is put between the quotes it does not
hold, and text with both kinds is written bare.
-/

namespace RecordFilter

def Operand.written : Operand → String
  | .null => "null"
  | .text s =>
      if s.toList.contains '\'' then
        if s.toList.contains '"' then s else "\"" ++ s ++ "\""
      else "'" ++ s ++ "'"

def Condition.written (c : Condition) : String :=
  c.field ++ " " ++ c.operator.symbol ++ " " ++ c.operand.written

namespace Filter

def writtenLink (l : Connective) : String :=
  " " ++ String.singleton l.symbol ++ " "

mutual

def written : Filter → String
  | [] => ""
  | clause :: rest => clauseWritten clause ++ restWritten rest

/-- The clauses after the first one, each with the connective that joins it. -/
def restWritten : List Clause → String
  | [] => ""
  | clause :: rest => writtenLink clause.link ++ (clauseWritten clause ++ restWritten rest)

def clauseWritten : Clause → String
  | .condition c => c.written
  | .group _ inner => "(" ++ written inner ++ ")"

end

end Filter

end RecordFilter
