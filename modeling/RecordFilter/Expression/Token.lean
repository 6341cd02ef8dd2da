import RecordFilter.Text.Matching
import RecordFilter.Expression.Cursor

/-!
Filter text split on its outermost level: conditions, connectives, and groups that are kept whole
for a later split of their own.
-/

namespace RecordFilter.Expression

inductive Token where
  | condition (text : List Char)
  /-- The text between the parentheses of a group. -/
  | group (inner : List Char)
  | link (c : Connective)
  deriving DecidableEq

namespace Token

def chars : Token → List Char
  | condition text => text
  | group inner => '(' :: inner ++ [')']
  | link c => [c.symbol]

end Token

/-- A trimmed text as a condition, or nothing where it is blank. -/
def conditionToken (s : List Char) : List Token :=
  match Text.trim s with
  | [] => []
  | text => [.condition text]

/-- Splits what is left of a text. `held` is what has been read since the last token, or since the
opening parenthesis of the group that is open, with the last character first. -/
def splitFrom (k : Cursor) (held : List Char) : List Char → List Token
  | [] => conditionToken held.reverse
  | c :: s =>
      let next := k.advance c
      match k.mark c, k.depth with
      | .opening, 0 => conditionToken held.reverse ++ splitFrom next [] s
      | .closing, 1 => .group held.reverse :: splitFrom next [] s
      | .link l, 0 => conditionToken held.reverse ++ .link l :: splitFrom next [] s
      | _, _ => splitFrom next (c :: held) s

def split (s : List Char) : List Token :=
  splitFrom {} [] s

/-- The tokens of a text in which parentheses and quotes pair up. -/
def splitBalanced (s : List Char) : Except Imbalance (List Token) :=
  match imbalance s with
  | some fault => .error fault
  | none => .ok (split s)

/-- The word that may stand before a filter. -/
def leadWord : List Char :=
  "where".toList

def startsBlank : List Char → Bool
  | [] => true
  | c :: _ => Text.isBlank c

/-- The text without the blanks around it and without a leading word `where` in any case. -/
def filterBody (s : List Char) : List Char :=
  let body := Text.trim s
  let rest := body.drop leadWord.length
  if Text.sameLetters (body.take leadWord.length) leadWord && startsBlank rest then
    Text.trimStart rest
  else body

end RecordFilter.Expression
