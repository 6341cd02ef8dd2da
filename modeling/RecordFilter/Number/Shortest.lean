import RecordFilter.Number.Binary

/-!
The fewest decimal digits that tell a binary number from its neighbours. A decimal reads back as
`m · 2 ^ e` when it lies in the interval that rounds to it, ends included for an even `m`. The
coarsest grid of a power of ten with a point in that interval gives the digits, and of its points
the nearest one is taken.
-/

namespace RecordFilter.Number

/-- Which of two equally near decimals is written. -/
inductive Tie where
  | up
  | even
  deriving DecidableEq

/-- The interval of a positive number in quarters of its last place, `4 · m` being the number
itself. Below a power of two the numbers lie half as far apart, so that the lower end is nearer. -/
structure Interval where
  low : Nat
  mid : Nat
  high : Nat
  closed : Bool

namespace Interval

def of (f : Format) (m : Nat) (e : Int) : Interval where
  low := if m = Nat.pow 2 (f.precision - 1) ∧ f.minExponent < e then 4 * m - 1 else 4 * m - 2
  mid := 4 * m
  high := 4 * m + 2
  closed := m % 2 == 0

/-- Whether the quotient of `num` and `den`, in quarters of the last place, lies inside. -/
def covers (i : Interval) (num den : Nat) : Bool :=
  if i.closed then i.low * den ≤ num && num ≤ i.high * den
  else i.low * den < num && num < i.high * den

end Interval

/-- Whether the decimal above is taken, by the distances to the one below and the one above. -/
def Tie.choosesAbove (t : Tie) (below above : Nat) (belowDigits : Nat) : Bool :=
  if above < below then true
  else if below < above then false
  else match t with
    | .up => true
    | .even => belowDigits % 2 == 1

/-- The point of the grid of multiples of `10 ^ g` that stands for `m · 2 ^ e`, if one does. -/
def gridPoint? (t : Tie) (i : Interval) (e g : Int) : Option Nat :=
  let step := Nat.pow 10 g.toNat * Nat.pow 2 (2 - e).toNat
  let unit := Nat.pow 10 (-g).toNat * Nat.pow 2 (e - 2).toNat
  let below := i.mid * unit / step
  match i.covers (below * step) unit, i.covers ((below + 1) * step) unit with
  | true, true =>
      if t.choosesAbove (i.mid * unit - below * step) ((below + 1) * step - i.mid * unit) below
      then some (below + 1) else some below
  | true, false => some below
  | false, true => some (below + 1)
  | false, false => none

/-- Searches from a grid to finer ones. -/
def searchGrid (t : Tie) (i : Interval) (e : Int) : Nat → Int → Nat × Int
  | 0, g => ((gridPoint? t i e g).getD 0, g)
  | n + 1, g =>
      match gridPoint? t i e g with
      | some c => (c, g)
      | none => searchGrid t i e n (g - 1)

/-- An upper bound for the number as a power of ten, from its bits: 30103 / 100000 is a little
more than the logarithm of two. -/
def coarsestGrid (m : Nat) (e : Int) : Int :=
  (e + m.log2 + 1) * 30103 / 100000 + 1

/-- A whole number and the power of ten to take it times, for a positive `m · 2 ^ e`. -/
def shortest (f : Format) (t : Tie) (m : Nat) (e : Int) : Nat × Int :=
  searchGrid t (Interval.of f m e) e (f.decimalDigits + 2) (coarsestGrid m e)

end RecordFilter.Number
