import RecordFilter.Text.Blank
import RecordFilter.Text.Matching
import RecordFilter.Number.Numeral

/-!
Number literals in filter text: an optional sign, then digits with an optional point among, before
or after them and an optional exponent, or one of the words for infinity and NaN in any case.
-/

namespace RecordFilter.Number

inductive Literal where
  | nan
  | infinite (negative : Bool)
  | numeral (n : Numeral)
  deriving DecidableEq

namespace Literal

def readExponent? : List Char → Option (Option Int)
  | [] => some none
  | c :: s =>
      if c = 'e' ∨ c = 'E' then (readInt? s).map some
      else none

/-- The digits after a point, and the rest; nothing is taken where no point stands. -/
def splitFraction : List Char → List Char × List Char
  | '.' :: s => s.span Char.isDigit
  | s => ([], s)

def readNumeral? (negative : Bool) (s : List Char) : Option Numeral :=
  let (whole, rest) := s.span Char.isDigit
  let (fraction, tail) := splitFraction rest
  if whole.isEmpty && fraction.isEmpty then none
  else (readExponent? tail).map fun exponent => ⟨negative, whole, fraction, exponent⟩

def read? (s : List Char) : Option Literal :=
  let (negative, body) := splitSign s
  if Text.sameLetters body "nan".toList then some nan
  else if Text.sameLetters body "inf".toList || Text.sameLetters body "infinity".toList then
    some (infinite negative)
  else (readNumeral? negative body).map numeral

def toBinary (f : Format) : Literal → Binary f
  | nan => .nan
  | infinite negative => .infinite negative
  | numeral n => n.toBinary f

end Literal

def readBinary? (f : Format) (s : List Char) : Option (Binary f) :=
  (Literal.read? s).map (Literal.toBinary f)

/-- A number among other text: blanks around it do not count, and NaN is no number. -/
def readNumber? (s : List Char) : Option Double :=
  (readBinary? .double (Text.trim s)).filter fun x => !x.isNaN

end RecordFilter.Number
