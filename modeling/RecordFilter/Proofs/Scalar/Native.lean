import Mathlib
import RecordFilter.Scalar.Compare
import RecordFilter.Scalar.Kind
import RecordFilter.Proofs.Text.Trim

/-!
Values compared with constants of their own kind, and what that has to do with literals: where a
literal has a value of the kind, the text of a field stands to the literal as the field stands to
that value.
-/

namespace RecordFilter

open Number

namespace Number

theorem isBlank_of_isDigit {c : Char} (h : c.isDigit = true) : Text.isBlank c = false := by
  simp only [Char.isDigit, Bool.and_eq_true, decide_eq_true_eq, ge_iff_le, UInt32.le_iff_toNat_le]
    at h
  have hgreatest : c.toNat ≤ 0x39 := h.2
  exact Text.isBlank_of_toNat h.1 (hgreatest.trans (by decide))

theorem isBlank_of_mem_writeInt {n : Int} {c : Char} (h : c ∈ writeInt n) :
    Text.isBlank c = false := by
  unfold writeInt at h
  split at h
  · rcases List.mem_cons.mp h with rfl | hc
    · decide
    · exact isBlank_of_isDigit (isDigit_of_mem_toDigits hc)
  · exact isBlank_of_isDigit (isDigit_of_mem_toDigits h)

theorem trim_writeInt (n : Int) : Text.trim (writeInt n) = writeInt n := by
  have hne : writeInt n ≠ [] := by
    intro hnil
    have hread := readInt?_writeInt n
    rw [hnil] at hread
    cases hread
  exact (Text.framed_of_forall hne fun _ => isBlank_of_mem_writeInt).trim_eq

end Number

theorem wholeIs?_of_readInt64? {n : Int} {literal : List Char} {j : Int64}
    (h : readInt64? literal = some j) : wholeIs? n literal = some (j.toInt == n) := by
  simp [wholeIs?, h]

/-- The text of a whole number and a literal that is one are compared as whole numbers. -/
theorem compareTexts_writeInt (i : Int64) {literal : List Char} {j : Int64}
    (h : readInt64? (Text.trim literal) = some j) :
    compareTexts (writeInt i.toInt) literal = compare i.toInt j.toInt := by
  rw [compareTexts, trim_writeInt, readInt64?_writeInt, h]

theorem Kind.readBool?_eq_some_iff {s : List Char} {b : Bool} :
    readBool? s = some b ↔ Text.sameLetters s (Scalar.displayBool b) = true := by
  have hnot : Text.sameLetters s (Scalar.displayBool true) = true →
      Text.sameLetters s (Scalar.displayBool false) = false := by
    intro htrue
    rw [Text.sameLetters, beq_iff_eq] at htrue
    rw [Text.sameLetters, htrue]
    decide
  unfold readBool?
  cases b <;> split <;> simp_all

namespace Scalar

def kind? : Scalar → Option Kind
  | null => none
  | text _ => some .text
  | int32 _ => some .int32
  | int64 _ => some .int64
  | float32 _ => some .float32
  | float64 _ => some .float64
  | bool _ => some .bool

/-- Whether two values of one kind are equal. Null equals nothing, and no value one of another
kind. -/
def same : Scalar → Scalar → Bool
  | text s, text t => s == t
  | int32 i, int32 j => i == j
  | int64 i, int64 j => i == j
  | float32 x, float32 y => x.sameValue y
  | float64 x, float64 y => x.sameValue y
  | bool a, bool b => a == b
  | _, _ => false

/-- How two values of one kind stand to each other. Null stands in no order. -/
def order? : Scalar → Scalar → Option Ordering
  | text s, text t => some (compare s t)
  | int32 i, int32 j => some (compare i j)
  | int64 i, int64 j => some (compare i j)
  | float32 x, float32 y => x.compare? y
  | float64 x, float64 y => x.compare? y
  | bool a, bool b => some (compare a b)
  | _, _ => none

/-- Whether a text holds another as one run of characters. -/
def holds (part : String) : Scalar → Bool
  | text s => decide (part.toList <:+: s.toList)
  | _ => false

variable {kind : Kind} {v w : Scalar} {literal : String}

theorem matchesLiteral_text (s : String) :
    (text s).matchesLiteral literal.toList = (s == literal) := by
  rw [Bool.eq_iff_iff, beq_iff_eq, ← String.toList_inj]
  exact beq_iff_eq

theorem matchesLiteral_int64 {i j : Int64}
    (h : readInt64? (Text.trim literal.toList) = some j) :
    (int64 i).matchesLiteral literal.toList = (i == j) := by
  simp only [matchesLiteral, numberIs?, wholeIs?_of_readInt64? h, Option.getD_some]
  rw [Bool.eq_iff_iff, beq_iff_eq, beq_iff_eq, Int64.toInt_inj]
  exact eq_comm

theorem matchesLiteral_int32 {i j : Int32}
    (h : readInt32? (Text.trim literal.toList) = some j) :
    (int32 i).matchesLiteral literal.toList = (i == j) := by
  simp only [matchesLiteral, numberIs?, wholeIs?_of_readInt64? (readInt64?_of_readInt32? h),
    Option.getD_some, Int32.toInt_toInt64]
  rw [Bool.eq_iff_iff, beq_iff_eq, beq_iff_eq, Int32.toInt_inj]
  exact eq_comm

theorem matchesLiteral_bool {a b : Bool}
    (h : Kind.readBool? (Text.trim literal.toList) = some b) :
    (bool a).matchesLiteral literal.toList = (a == b) := by
  rw [matchesLiteral, Bool.eq_iff_iff, ← Kind.readBool?_eq_some_iff, h, Option.some_inj, beq_iff_eq]
  exact eq_comm

theorem matchesLiteral_eq_same (hkind : kind ≠ .float32 ∧ kind ≠ .float64)
    (hv : v = null ∨ v.kind? = some kind) (hw : kind.convert? literal = some w) :
    v.matchesLiteral literal.toList = v.same w := by
  rcases hv with rfl | hv
  · rfl
  · cases v with
    | null => cases hv
    | text s =>
        cases hv
        cases hw
        exact matchesLiteral_text s
    | int32 i =>
        cases hv
        obtain ⟨j, hj, rfl⟩ := Option.map_eq_some_iff.mp hw
        exact matchesLiteral_int32 hj
    | int64 i =>
        cases hv
        obtain ⟨j, hj, rfl⟩ := Option.map_eq_some_iff.mp hw
        exact matchesLiteral_int64 hj
    | float32 x =>
        cases hv
        exact absurd rfl hkind.1
    | float64 x =>
        cases hv
        exact absurd rfl hkind.2
    | bool a =>
        cases hv
        obtain ⟨b, hb, rfl⟩ := Option.map_eq_some_iff.mp hw
        exact matchesLiteral_bool hb

theorem compare_toInt32 (i j : Int32) : compare i.toInt j.toInt = compare i j := by
  simp only [compare, compareOfLessAndEq, Int32.lt_iff_toInt_lt, Int32.toInt_inj]

theorem compare_toInt64 (i j : Int64) : compare i.toInt j.toInt = compare i j := by
  simp only [compare, compareOfLessAndEq, Int64.lt_iff_toInt_lt, Int64.toInt_inj]

theorem compareTo?_eq_order? (hkind : kind = .int32 ∨ kind = .int64)
    (hv : v = null ∨ v.kind? = some kind) (hw : kind.convert? literal = some w) :
    v.compareTo? literal.toList = v.order? w := by
  rcases hv with rfl | hv
  · rfl
  · rcases hkind with rfl | rfl
    · cases v <;> cases hv
      next i =>
        obtain ⟨j, hj, rfl⟩ := Option.map_eq_some_iff.mp hw
        have h := compareTexts_writeInt i.toInt64 (readInt64?_of_readInt32? hj)
        rw [Int32.toInt_toInt64, Int32.toInt_toInt64, compare_toInt32] at h
        exact congrArg some h
    · cases v <;> cases hv
      next i =>
        obtain ⟨j, hj, rfl⟩ := Option.map_eq_some_iff.mp hw
        have h := compareTexts_writeInt i hj
        rw [compare_toInt64] at h
        exact congrArg some h

theorem contains_eq_holds (hv : v = null ∨ v.kind? = some .text) :
    v.contains literal.toList = v.holds literal := by
  rcases hv with rfl | hv
  · rfl
  · cases v <;> cases hv
    next s =>
      rw [Bool.eq_iff_iff, holds, decide_eq_true_iff, ← Text.occursIn_iff]
      exact Iff.rfl

end Scalar

end RecordFilter
