import RecordFilter.Number.Integer
import RecordFilter.Number.Binary

/-!
Numbers as written: digits before and after the point and a power of ten. A numeral stands for one
exact value, which is rounded once to the nearest binary number.
-/

namespace RecordFilter.Number

structure Numeral where
  negative : Bool
  whole : List Char
  fraction : List Char
  exponent : Option Int
  deriving DecidableEq

namespace Numeral

/-- All digits, read as one whole number. -/
def significand (n : Numeral) : Nat :=
  readDigits (n.whole ++ n.fraction)

/-- The power of ten that the significand is to be taken times. -/
def power (n : Numeral) : Int :=
  n.exponent.getD 0 - n.fraction.length

/-- The places before the point when the value is written without an exponent, for a significand
that is not zero: the value is below `10 ^ lead` and at least `10 ^ (lead - 1)`. -/
def lead (n : Numeral) : Int :=
  (Nat.toDigits 10 n.significand).length + n.power

/-- The nearest number of a format. A value whose leading digit alone puts it past the greatest
number, or below half the least one, is settled without forming the power of ten. -/
def toBinary (f : Format) (n : Numeral) : Binary f :=
  if n.significand = 0 then .zero n.negative
  else if f.maxExponent + f.precision + 1 < n.lead then .infinite n.negative
  else if n.lead < f.minExponent - 1 then .zero n.negative
  else .round n.negative (n.significand * Nat.pow 10 n.power.toNat) (Nat.pow 10 (-n.power).toNat)

def exponentText : Option Int → List Char
  | none => []
  | some e => 'e' :: (if e < 0 then '-' else '+') :: Nat.toDigits 10 e.natAbs

def pointText : List Char → List Char
  | [] => []
  | digits => '.' :: digits

/-- A minus sign if there is one, the digits with a point before a fraction, and a signed exponent
if there is one. -/
def text (n : Numeral) : List Char :=
  (if n.negative then ['-'] else []) ++ n.whole ++ pointText n.fraction ++ exponentText n.exponent

def ofInt (n : Int) : Numeral where
  negative := n < 0
  whole := Nat.toDigits 10 n.natAbs
  fraction := []
  exponent := none

end Numeral

end RecordFilter.Number
