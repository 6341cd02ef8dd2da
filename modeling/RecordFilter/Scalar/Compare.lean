import RecordFilter.Scalar.Basic

/-!
Scalars against literals: equality in the scalar's own domain, containment, order, and ranges. Two
texts are compared as numbers when both are numbers and character by character otherwise.
-/

namespace RecordFilter

open Number

/-- The order of texts: as whole numbers if both are, else as numbers if both are, else by their
characters. -/
def compareTexts (s t : List Char) : Ordering :=
  match readInt64? (Text.trim s), readInt64? (Text.trim t) with
  | some i, some j => compare i.toInt j.toInt
  | _, _ =>
      match readNumber? s, readNumber? t with
      | some x, some y => (x.compare? y).getD .eq
      | _, _ => compareOfLessAndEq s t

/-- Both bounds of a range, split at the first colon and trimmed; neither may be blank. -/
def rangeBounds? (literal : List Char) : Option (List Char × List Char) :=
  match literal.span (· != ':') with
  | (_, []) => none
  | (least, _ :: greatest) =>
      let bounds := (Text.trim least, Text.trim greatest)
      if bounds.1.isEmpty || bounds.2.isEmpty then none else some bounds

/-- Whether a whole number is what the literal says, missing where the literal is no number. A
literal in whole numbers is compared without rounding. -/
def wholeIs? (n : Int) (literal : List Char) : Option Bool :=
  match readInt64? literal with
  | some i => some (i.toInt == n)
  | none => (readNumber? literal).map fun x => x.toInt? == some n

/-- Whether a binary number is the literal's value in its own format. -/
def binaryIs? {f : Format} (x : Binary f) (literal : List Char) : Option Bool :=
  ((readBinary? f literal).filter fun y => !y.isNaN).map fun y => y.sameValue x

namespace Scalar

def numberIs? : Scalar → List Char → Option Bool
  | int32 i, literal => wholeIs? i.toInt literal
  | int64 i, literal => wholeIs? i.toInt literal
  | float32 x, literal => binaryIs? x literal
  | float64 x, literal => binaryIs? x literal
  | _, _ => none

/-- A number matches any literal of its value and, failing that, its own text; a truth value
matches its name in any case, text itself alone, and null nothing. -/
def matchesLiteral (v : Scalar) (literal : List Char) : Bool :=
  match v with
  | null => false
  | bool b => Text.sameLetters (Text.trim literal) (displayBool b)
  | v => (v.numberIs? (Text.trim literal)).getD (v.displayChars == literal)

def contains (v : Scalar) (literal : List Char) : Bool :=
  v.textChars?.any (Text.occursIn literal)

/-- How the scalar's text stands to the literal; null stands in no order. -/
def compareTo? (v : Scalar) (literal : List Char) : Option Ordering :=
  v.textChars?.map (compareTexts · literal)

/-- Whether a text lies between two bounds, as numbers if all three are, else by characters. -/
def liesWithin (s least greatest : List Char) : Bool :=
  match readNumber? s, readNumber? least, readNumber? greatest with
  | some x, some lo, some hi => lo.atMost x && x.atMost hi
  | _, _, _ => !decide (s < least) && !decide (greatest < s)

def within (v : Scalar) (least greatest : List Char) : Bool :=
  v.textChars?.any (liesWithin · least greatest)

end Scalar

end RecordFilter
