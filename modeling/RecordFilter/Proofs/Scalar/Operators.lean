import RecordFilter.Proofs.Number.Literals
import RecordFilter.Proofs.Scalar.Native
import RecordFilter.Record.Matching

/-!
What the operators of order give for a field that is there: all four follow one comparison. Whole
numbers in literals are read as numbers too.
-/

namespace RecordFilter

open Number

namespace Number

variable {s : List Char} {i : Int64}

theorem natAbs_toInt_lt (i : Int64) : i.toInt.natAbs < 2 ^ 64 := by
  have hlow := i.le_toInt
  have hhigh := i.toInt_lt
  omega

theorem readInt?_of_readInt64? (h : readInt64? s = some i) : readInt? s = some i.toInt := by
  obtain ⟨n, hn, hi⟩ := Option.bind_eq_some_iff.mp h
  rw [hn, int64?_eq_some hi]

theorem readNumber?_eq_some {x : Double} {a : ℚ} (h : readBinary? .double (Text.trim s) = some x)
    (hx : x.value? = some a) : readNumber? s = some x := by
  have hnan : x.isNaN = false := by
    cases x with
    | nan => cases hx
    | _ => rfl
  rw [readNumber?, h, Option.filter_some, hnan]
  rfl

theorem readNumber?_of_readInt64? (h : readInt64? (Text.trim s) = some i) :
    ∃ x, readNumber? s = some x ∧ x.value? = some (Format.double.nearest i.toInt) := by
  obtain ⟨x, hread, hvalue⟩ :=
    readBinary?_of_readInt? regular_double (readInt?_of_readInt64? h) (natAbs_toInt_lt i)
  exact ⟨x, readNumber?_eq_some hread hvalue, hvalue⟩

end Number

namespace Operator

/-- Whether the operator holds of a value that stands so to another one. -/
def accepts : Operator → Ordering → Bool
  | equal, o => o.isEq
  | notEqual, o => o.isNe
  | lessThan, o => o.isLT
  | lessThanOrEqual, o => o.isLE
  | greaterThan, o => o.isGT
  | greaterThanOrEqual, o => o.isGE
  | _, _ => false

def ofOrder : List Operator :=
  [lessThan, lessThanOrEqual, greaterThan, greaterThanOrEqual]

end Operator

theorem Condition.result_ofOrder {r : Record} {c : Condition} {v : Scalar} {literal : String}
    {o : Ordering} (hfield : r.field? c.field = some v) (hliteral : c.operand = .text literal)
    (hcompare : v.compareTo? literal.toList = some o) (hoperator : c.operator ∈ Operator.ofOrder) :
    (c.holdsOn r).result = .ok (c.operator.accepts o) := by
  rw [result_holdsOn hfield, holdsFor, hliteral]
  simp only [Operator.ofOrder, List.mem_cons, List.not_mem_nil, or_false] at hoperator
  rcases hoperator with hop | hop | hop | hop
  all_goals
    rw [hop]
    simp only [holdsForText, hcompare]
    cases o <;> rfl

namespace Scalar

/-- The whole number that a field of one of the two widths holds. -/
def whole? : Scalar → Option Int
  | int32 i => some i.toInt
  | int64 i => some i.toInt
  | _ => none

variable {v : Scalar} {n : Int} {literal : List Char} {j : Int64}

theorem textChars?_of_whole? (h : v.whole? = some n) :
    ∃ i : Int64, i.toInt = n ∧ v.textChars? = some (writeInt i.toInt) := by
  cases v with
  | int32 i =>
      cases h
      exact ⟨i.toInt64, Int32.toInt_toInt64 i, by rw [Int32.toInt_toInt64]; rfl⟩
  | int64 i =>
      cases h
      exact ⟨i, rfl, rfl⟩
  | null => cases h
  | text s => cases h
  | float32 x => cases h
  | float64 x => cases h
  | bool b => cases h

theorem compareTo?_of_whole? (hv : v.whole? = some n)
    (h : readInt64? (Text.trim literal) = some j) :
    v.compareTo? literal = some (compare n j.toInt) := by
  obtain ⟨i, rfl, htext⟩ := textChars?_of_whole? hv
  rw [compareTo?, htext, Option.map_some, compareTexts_writeInt i h]

end Scalar

end RecordFilter
