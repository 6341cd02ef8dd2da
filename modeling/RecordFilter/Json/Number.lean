import RecordFilter.Number.Layout
import RecordFilter.Json.Basic

/-!
The values of JSON numbers, and how binary numbers are written in JSON. A number without point and
exponent is a whole number while 64 bits hold it. Every other one is a binary number whose digits
are first gathered in 64 bits and then scaled by a power of ten, with one rounding at each step.
-/

namespace RecordFilter.Json

open Number

/-- The greatest whole number of 64 bits. -/
def gatherLimit : Nat :=
  Nat.pow 2 64 - 1

/-- Gathers digits before the point while they fit, and counts those that do not. -/
def gatherWhole : Nat → List Char → Nat × Nat
  | n, [] => (n, 0)
  | n, c :: s =>
      let next := n * 10 + (c.toNat - '0'.toNat)
      if gatherLimit < next then (n, s.length + 1) else gatherWhole next s

/-- Gathers digits after the point while they fit, and counts those that do. -/
def gatherFraction : Nat → List Char → Nat × Nat
  | n, [] => (n, 0)
  | n, c :: s =>
      let next := n * 10 + (c.toNat - '0'.toNat)
      if gatherLimit < next then (n, 0)
      else
        let (m, taken) := gatherFraction next s
        (m, taken + 1)

/-- The double nearest to a power of ten. -/
def powerOfTen (k : Nat) : Double :=
  .round false (Nat.pow 10 k) 1

/-- Divides by the greatest power of ten among the doubles until what is left of the exponent is
within reach. -/
def scaleDown : Nat → Double → Nat → Double
  | 0, x, k => x.div (powerOfTen k)
  | n + 1, x, k =>
      if x.isZero then x
      else if k ≤ 308 then x.div (powerOfTen k)
      else scaleDown n (x.div (powerOfTen 308)) (k - 308)

/-- `x · 10 ^ e`, missing where it is too great. -/
def scaleByTen? (x : Double) (e : Int) : Option Double :=
  if 0 ≤ e then
    if e ≤ 308 then
      let y := x.mul (powerOfTen e.toNat)
      if y.isFinite then some y else none
    else if x.isZero then some x
    else none
  else some (scaleDown (e.natAbs / 308) x e.natAbs)

/-- The double that a number is read as, missing where it is too great. -/
def double? (n : Numeral) : Option Double :=
  let (whole, dropped) := gatherWhole 0 n.whole
  let (significand, taken) := gatherFraction whole n.fraction
  let magnitude := scaleByTen? (.ofInt significand) (n.exponent.getD 0 + dropped - taken)
  magnitude.map fun x => if n.negative then x.negate else x

/-- The whole number that a number without point and exponent stands for. Zero with a minus sign is
none, and neither is a number that 64 bits do not hold. -/
def whole? (n : Numeral) : Option Int :=
  if n.fraction.isEmpty && n.exponent.isNone then
    let m := n.significand
    if n.negative then (if 0 < m ∧ m ≤ Nat.pow 2 63 then some (-m) else none)
    else if m < Nat.pow 2 64 then some m else none
  else none

/-- A whole number is rounded once, any other number by way of a double. -/
def binary? (f : Format) (n : Numeral) : Option (Binary f) :=
  match whole? n with
  | some i => some (.ofInt i)
  | none => (double? n).map Binary.convert

/-- Whole numbers have the fraction zero, of equally near decimals the even one is written, and an
exponent is written outside of these leading exponents. -/
def doubleLayout : Layout := ⟨.even, some (-5), some 15, ['0']⟩

def singleLayout : Layout := ⟨.even, some (-6), some 12, ['0']⟩

/-- JSON has no infinity and no NaN; `null` is written for them. -/
def ofBinary {f : Format} (l : Layout) : Binary f → Json
  | .finite negative m e _ => .number (l.numeral f negative m e)
  | _ => .null

def ofDouble (x : Double) : Json :=
  ofBinary doubleLayout x

def ofSingle (x : Single) : Json :=
  ofBinary singleLayout x

end RecordFilter.Json
