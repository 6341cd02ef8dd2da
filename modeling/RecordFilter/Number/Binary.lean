/-!
Binary floating-point numbers as exact values: a sign, a whole significand and a power of two.
Every inexact operation rounds one exact quotient to the nearest number of the format, a tie going
to the even significand.
-/

namespace RecordFilter.Number

/-- A binary format: the bits of a significand, the exponents a significand may have, and how many
decimal digits always tell two of its numbers apart. -/
structure Format where
  precision : Nat
  minExponent : Int
  maxExponent : Int
  decimalDigits : Nat
  deriving DecidableEq

namespace Format

def single : Format := ⟨24, -149, 104, 9⟩

def double : Format := ⟨53, -1074, 971, 17⟩

/-- Every number has one canonical pair: the significand fills the precision, unless the exponent
is already the least one. -/
def Canonical (f : Format) (significand : Nat) (exponent : Int) : Prop :=
  significand < Nat.pow 2 f.precision ∧ f.minExponent ≤ exponent ∧ exponent ≤ f.maxExponent ∧
    (exponent = f.minExponent ∨ Nat.pow 2 (f.precision - 1) ≤ significand)

instance (f : Format) (m : Nat) (e : Int) : Decidable (f.Canonical m e) :=
  inferInstanceAs (Decidable (_ ∧ _ ∧ _ ∧ _))

end Format

inductive Binary (f : Format) where
  | nan
  | infinite (negative : Bool)
  | finite (negative : Bool) (significand : Nat) (exponent : Int)
      (canonical : f.Canonical significand exponent)
  deriving DecidableEq

abbrev Single := Binary Format.single

abbrev Double := Binary Format.double

/-- The whole number nearest to a quotient; of two equally near ones, the even one. -/
def nearestEven (num den : Nat) : Nat :=
  let q := num / den
  let twice := 2 * (num % den)
  if twice < den then q
  else if den < twice then q + 1
  else if q % 2 = 0 then q
  else q + 1

/-- The quotient of `num` and `den · 2 ^ e`, as a quotient of whole numbers. -/
def scaled (num den : Nat) (e : Int) : Nat × Nat :=
  (num * Nat.pow 2 (-e).toNat, den * Nat.pow 2 e.toNat)

/-- The exponent of the greatest power of two that is at most `num / den`, for positive ones. -/
def floorLog2 (num den : Nat) : Int :=
  let e := (num.log2 : Int) - den.log2
  let (a, b) := scaled num den e
  if b ≤ a then e else e - 1

namespace Binary

variable {f g : Format}

/-- A finite number where the pair is canonical. A rounded pair is canonical unless its exponent
is past the greatest one, so that all other pairs stand for infinity. -/
def ofParts (negative : Bool) (significand : Nat) (exponent : Int) : Binary f :=
  if h : f.Canonical significand exponent then .finite negative significand exponent h
  else .infinite negative

def zero (negative : Bool) : Binary f :=
  ofParts negative 0 f.minExponent

/-- The number nearest to `num / den`, or infinity where that lies past the greatest number. -/
def round (negative : Bool) (num den : Nat) : Binary f :=
  if num = 0 then zero negative
  else
    let e := max f.minExponent (floorLog2 num den - (f.precision - 1))
    let (a, b) := scaled num den e
    let m := nearestEven a b
    if m = Nat.pow 2 f.precision then ofParts negative (Nat.pow 2 (f.precision - 1)) (e + 1)
    else ofParts negative m e

def ofInt (n : Int) : Binary f :=
  round (n < 0) n.natAbs 1

/-- The value of a significand and an exponent, as a quotient of whole numbers. -/
def ratio (significand : Nat) (exponent : Int) : Nat × Nat :=
  scaled significand 1 (-exponent)

/-- The nearest number of another format. -/
def convert : Binary f → Binary g
  | nan => nan
  | infinite s => infinite s
  | finite s m e _ => round s (ratio m e).1 (ratio m e).2

def isNaN : Binary f → Bool
  | nan => true
  | _ => false

def isFinite : Binary f → Bool
  | finite .. => true
  | _ => false

def isZero : Binary f → Bool
  | finite _ m _ _ => m == 0
  | _ => false

def negate : Binary f → Binary f
  | nan => nan
  | infinite s => infinite !s
  | finite s m e h => finite (!s) m e h

/-- A finite value counted in units of the least positive number of the format. -/
def units (f : Format) (negative : Bool) (significand : Nat) (exponent : Int) : Int :=
  let n := significand * Nat.pow 2 (exponent - f.minExponent).toNat
  if negative then -n else n

/-- The order of values, in which both zeros are equal; nothing compares with NaN. -/
def compare? : Binary f → Binary f → Option Ordering
  | nan, _ => none
  | _, nan => none
  | infinite s, infinite t => some (if s = t then .eq else if s then .lt else .gt)
  | infinite s, finite .. => some (if s then .lt else .gt)
  | finite .., infinite t => some (if t then .gt else .lt)
  | finite s m e _, finite t n d _ => some (compare (units f s m e) (units f t n d))

/-- Equality of values: NaN equals nothing, and the two zeros are equal. -/
def sameValue (x y : Binary f) : Bool :=
  x.compare? y == some .eq

def atMost (x y : Binary f) : Bool :=
  x.compare? y == some .lt || x.compare? y == some .eq

/-- The whole number that a value is, if it is one. -/
def toInt? : Binary f → Option Int
  | finite s m e _ =>
      let (num, den) := ratio m e
      if num % den = 0 then some (if s then -(num / den : Nat) else (num / den : Nat)) else none
  | _ => none

def mul : Binary f → Binary f → Binary f
  | nan, _ => nan
  | _, nan => nan
  | infinite s, infinite t => infinite (s != t)
  | infinite s, finite t n _ _ => if n = 0 then nan else infinite (s != t)
  | finite s m _ _, infinite t => if m = 0 then nan else infinite (s != t)
  | finite s m e _, finite t n d _ =>
      let (a, b) := ratio (m * n) (e + d)
      round (s != t) a b

def div : Binary f → Binary f → Binary f
  | nan, _ => nan
  | _, nan => nan
  | infinite _, infinite _ => nan
  | infinite s, finite t _ _ _ => infinite (s != t)
  | finite s _ _ _, infinite t => zero (s != t)
  | finite s m e _, finite t n d _ =>
      if n = 0 then (if m = 0 then nan else infinite (s != t))
      else
        let (a, b) := scaled m n (d - e)
        round (s != t) a b

end Binary

end RecordFilter.Number
