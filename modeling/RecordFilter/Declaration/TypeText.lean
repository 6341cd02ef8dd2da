import RecordFilter.Declaration.MemberType
import RecordFilter.Declaration.TypeToken

/-!
The written type of a member. Of a path only the last name counts, and of its arguments in angle
brackets only the first; every type that is no path is alike.
-/

namespace RecordFilter.Declaration

def isOpening (c : Char) : Bool :=
  c == '(' || c == '[' || c == '\x7b'

def isClosing (c : Char) : Bool :=
  c == ')' || c == ']' || c == '\x7d'

/-- How deep brackets nest: angle brackets count outside of all others only. -/
structure Nesting where
  angles : Nat := 0
  others : Nat := 0

namespace Nesting

def after (n : Nesting) : TypeToken → Nesting
  | .mark c =>
      if isOpening c then { n with others := n.others + 1 }
      else if isClosing c then { n with others := n.others - 1 }
      else if n.others = 0 ∧ c = '<' then { n with angles := n.angles + 1 }
      else if n.others = 0 ∧ c = '>' then { n with angles := n.angles - 1 }
      else n
  | _ => n

def isOutermost (n : Nesting) : Bool :=
  n.angles == 0 && n.others == 0

end Nesting

/-- Splits at the first token of the outermost level that satisfies `p`, which is dropped. -/
def splitOutermost (p : TypeToken → Bool) (n : Nesting) :
    List TypeToken → List TypeToken × List TypeToken
  | [] => ([], [])
  | t :: rest =>
      if n.isOutermost && p t then ([], rest)
      else
        let (inside, after) := splitOutermost p (n.after t) rest
        (t :: inside, after)

inductive TypeExpr where
  | path (name : String)
  | applied (name : String) (first : TypeExpr)
  | other
  deriving DecidableEq

/-- Where in a path reading stands: at its beginning or at one of its names. -/
inductive PathPart where
  | start
  | name
  deriving DecidableEq

/-- The words that may stand before a path and make it a type of another form. -/
def isFormWord (name : String) : Bool :=
  name ∈ ["dyn", "for", "impl"]

/-- A name with arguments, of which the opening bracket has been taken: the path goes on after
them, or they end it and the first of them counts. -/
def readArguments (readFirst readNext : List TypeToken → TypeExpr) (name : String)
    (tokens : List TypeToken) : TypeExpr :=
  let (inside, after) := splitOutermost (· == .mark '>') {} tokens
  match after with
  | [] =>
      if inside.isEmpty then .path name
      else .applied name (readFirst (splitOutermost (· == .mark ',') {} inside).1)
  | .separator :: next => readNext next
  | _ => .other

/-- The end of a result type: where it goes on as a sum, the whole is a sum of types and no path. -/
def endOfResult (name : String) (tokens : List TypeToken) : TypeExpr :=
  if (splitOutermost (· == .mark '+') {} tokens).1 = tokens then .path name else .other

/-- A name with a result type, of which the arrow has been taken. Only after a result in parentheses
the path may go on. -/
def readResult (readNext : List TypeToken → TypeExpr) (name : String) :
    List TypeToken → TypeExpr
  | .mark '(' :: rest =>
      match (splitOutermost (· == .mark ')') {} rest).2 with
      | .separator :: next => readNext next
      | after => endOfResult name after
  | tokens => endOfResult name tokens

/-- A name with parameters in parentheses, of which the opening one has been taken. -/
def readParameters (readNext : List TypeToken → TypeExpr) (name : String)
    (tokens : List TypeToken) : TypeExpr :=
  match (splitOutermost (· == .mark ')') {} tokens).2 with
  | [] => .path name
  | .arrow :: result => readResult readNext name result
  | .separator :: next => readNext next
  | _ => .other

/-- What follows a name in a path. -/
def readAfterName (readFirst readNext : List TypeToken → TypeExpr) (name : String) :
    List TypeToken → TypeExpr
  | [] => .path name
  | .separator :: .mark '<' :: rest => readArguments readFirst readNext name rest
  | .mark '<' :: rest => readArguments readFirst readNext name rest
  | .separator :: .mark '(' :: rest => readParameters readNext name rest
  | .mark '(' :: rest => readParameters readNext name rest
  | .separator :: rest => readNext rest
  | _ => .other

/-- Of two steps at least one takes a token, so that fuel past twice their number is enough. -/
def readPath : Nat → PathPart → List TypeToken → TypeExpr
  | 0, _, _ => .other
  | fuel + 1, .start, .mark '<' :: rest =>
      match (splitOutermost (· == .mark '>') {} rest).2 with
      | .separator :: next => readPath fuel .name next
      | _ => .other
  | fuel + 1, .start, .separator :: rest => readPath fuel .name rest
  | fuel + 1, .start, tokens => readPath fuel .name tokens
  | fuel + 1, .name, .word name :: rest =>
      if isFormWord name then .other
      else readAfterName (readPath fuel .start) (readPath fuel .name) name rest
  | _, .name, _ => .other

namespace TypeExpr

def ofText (s : String) : TypeExpr :=
  let tokens := typeTokens s
  readPath (2 * tokens.length + 2) .start tokens

/-- The type of a member that may be exposed: a plain type, whatever its arguments are, or an
option of such a type. -/
def memberType? : TypeExpr → Option MemberType
  | path name => MemberType.named? name
  | applied name first =>
      if name = "Option" then first.memberType?.map .option else MemberType.named? name
  | other => none

end TypeExpr

end RecordFilter.Declaration
