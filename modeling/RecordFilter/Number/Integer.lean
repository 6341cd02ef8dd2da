/-!
Whole numbers in decimal digits: reading with an optional sign, writing without needless zeros,
and the two widths that fields may have.
-/

namespace RecordFilter.Number

/-- A leading sign, if there is one, and what follows it. The flag is set for a minus. -/
def splitSign : List Char → Bool × List Char
  | '-' :: s => (true, s)
  | '+' :: s => (false, s)
  | s => (false, s)

def signed (negative : Bool) (n : Nat) : Int :=
  if negative then -n else n

def readDigits (s : List Char) : Nat :=
  Nat.ofDigitChars 10 s 0

/-- At least one digit after at most one sign, and nothing else. -/
def readInt? (s : List Char) : Option Int :=
  let (negative, digits) := splitSign s
  if digits.isEmpty || !digits.all Char.isDigit then none
  else some (signed negative (readDigits digits))

def writeInt (n : Int) : List Char :=
  if n < 0 then '-' :: Nat.toDigits 10 n.natAbs else Nat.toDigits 10 n.natAbs

theorem readDigits_toDigits (n : Nat) : readDigits (Nat.toDigits 10 n) = n :=
  Nat.ofDigitChars_toDigits (by decide) (by decide)

theorem isDigit_of_mem_toDigits {n : Nat} {c : Char} (h : c ∈ Nat.toDigits 10 n) :
    c.isDigit = true :=
  Nat.isDigit_of_mem_toDigits (by decide) (by decide) h

theorem splitSign_of_isDigit {c : Char} {s : List Char} (h : c.isDigit = true) :
    splitSign (c :: s) = (false, c :: s) := by
  unfold splitSign
  split
  · next heq =>
      cases heq
      exact absurd h (by decide)
  · next heq =>
      cases heq
      exact absurd h (by decide)
  · rfl

theorem splitSign_writeInt (n : Int) :
    splitSign (writeInt n) = (decide (n < 0), Nat.toDigits 10 n.natAbs) := by
  by_cases h : n < 0
  · simp [writeInt, h, splitSign]
  · have hne : Nat.toDigits 10 n.natAbs ≠ [] := Nat.toDigits_ne_nil
    obtain ⟨c, s, hdigits⟩ := List.exists_cons_of_ne_nil hne
    have hc : c.isDigit = true := isDigit_of_mem_toDigits (hdigits ▸ List.mem_cons_self)
    rw [writeInt, if_neg h, hdigits, splitSign_of_isDigit hc, decide_eq_false h]

theorem signed_natAbs (n : Int) : signed (decide (n < 0)) n.natAbs = n := by
  unfold signed
  split
  · next h =>
      have hneg : n < 0 := of_decide_eq_true h
      omega
  · next h =>
      have hnonneg : ¬ n < 0 := fun hneg => h (decide_eq_true hneg)
      omega

theorem readInt?_writeInt (n : Int) : readInt? (writeInt n) = some n := by
  have hdigits : (Nat.toDigits 10 n.natAbs).all Char.isDigit = true :=
    List.all_eq_true.mpr fun _ => isDigit_of_mem_toDigits
  rw [readInt?, splitSign_writeInt]
  simp [hdigits, readDigits_toDigits, signed_natAbs, Nat.toDigits_ne_nil]

/-- The number in 32 bits, if it fits. -/
def int32? (n : Int) : Option Int32 :=
  if h : Int32.minValue.toInt ≤ n ∧ n ≤ Int32.maxValue.toInt then
    some (Int32.ofIntLE n h.1 h.2)
  else none

/-- The number in 64 bits, if it fits. -/
def int64? (n : Int) : Option Int64 :=
  if h : Int64.minValue.toInt ≤ n ∧ n ≤ Int64.maxValue.toInt then
    some (Int64.ofIntLE n h.1 h.2)
  else none

theorem int32?_eq_some {n : Int} {i : Int32} (h : int32? n = some i) : i.toInt = n := by
  unfold int32? at h
  split at h
  · cases h
    exact Int32.toInt_ofIntLE
  · cases h

theorem int64?_eq_some {n : Int} {i : Int64} (h : int64? n = some i) : i.toInt = n := by
  unfold int64? at h
  split at h
  · cases h
    exact Int64.toInt_ofIntLE
  · cases h

theorem int32?_toInt (i : Int32) : int32? i.toInt = some i := by
  rw [int32?, dif_pos ⟨i.minValue_le_toInt, i.toInt_le⟩, Int32.ofIntLE_toInt]

theorem int64?_toInt (i : Int64) : int64? i.toInt = some i := by
  rw [int64?, dif_pos ⟨i.minValue_le_toInt, i.toInt_le⟩, Int64.ofIntLE_toInt]

def readInt32? (s : List Char) : Option Int32 :=
  (readInt? s).bind int32?

def readInt64? (s : List Char) : Option Int64 :=
  (readInt? s).bind int64?

theorem readInt64?_writeInt (i : Int64) : readInt64? (writeInt i.toInt) = some i := by
  rw [readInt64?, readInt?_writeInt, Option.bind_some, int64?_toInt]

/-- Whatever fits in 32 bits is the same number in 64. -/
theorem readInt64?_of_readInt32? {s : List Char} {i : Int32} (h : readInt32? s = some i) :
    readInt64? s = some i.toInt64 := by
  obtain ⟨n, hn, hi⟩ := Option.bind_eq_some_iff.mp h
  rw [readInt64?, hn, Option.bind_some, ← int32?_eq_some hi, ← Int32.toInt_toInt64, int64?_toInt]

end RecordFilter.Number
