import RecordFilter.Number.Shortest
import RecordFilter.Number.Numeral

/-!
How a binary number is written: which of its digits go before the point, and from which size on an
exponent takes the place of zeros.
-/

namespace RecordFilter.Number

/-- The decisions of one way of writing: the choice between equally near decimals, the leading
exponents for which no exponent is written, and the fraction of a whole number. -/
structure Layout where
  tie : Tie
  leastPlain : Option Int
  greatestPlain : Option Int
  wholeFraction : List Char

namespace Layout

def plain (l : Layout) (lead : Int) : Bool :=
  l.leastPlain.all (· ≤ lead) && l.greatestPlain.all (lead ≤ ·)

/-- Digits whose first one counts `10 ^ lead`, with zeros up to the point. -/
def plainNumeral (l : Layout) (negative : Bool) (digits : List Char) (lead : Int) : Numeral :=
  let places := (lead + 1).toNat
  if lead < 0 then ⟨negative, ['0'], List.replicate (-lead - 1).toNat '0' ++ digits, none⟩
  else if digits.length ≤ places then
    ⟨negative, digits ++ List.replicate (places - digits.length) '0', l.wholeFraction, none⟩
  else ⟨negative, digits.take places, digits.drop places, none⟩

def exponentNumeral (negative : Bool) (digits : List Char) (lead : Int) : Numeral :=
  ⟨negative, digits.take 1, digits.drop 1, some lead⟩

def numeral (l : Layout) (f : Format) (negative : Bool) (m : Nat) (e : Int) : Numeral :=
  if m = 0 then ⟨negative, ['0'], l.wholeFraction, none⟩
  else
    let (c, g) := shortest f l.tie m e
    let digits := Nat.toDigits 10 c
    let lead := digits.length - 1 + g
    if l.plain lead then l.plainNumeral negative digits lead
    else exponentNumeral negative digits lead

/-- Text for people and for comparison: never an exponent, no fraction on a whole number, and the
greater of two equally near decimals. -/
def display : Layout := ⟨.up, none, none, []⟩

end Layout

namespace Binary

def displayChars {f : Format} : Binary f → List Char
  | nan => ['N', 'a', 'N']
  | infinite negative => (if negative then ['-'] else []) ++ ['i', 'n', 'f']
  | finite negative m e _ => (Layout.display.numeral f negative m e).text

def display {f : Format} (x : Binary f) : String :=
  String.ofList x.displayChars

end Binary

end RecordFilter.Number
