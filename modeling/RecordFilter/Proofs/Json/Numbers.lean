import RecordFilter.Json.Number
import RecordFilter.Proofs.Json.Documents
import RecordFilter.Proofs.Number.Exact

/-!
Binary numbers in JSON. What is written for a number is a numeral of JSON that is not taken for a
whole number. Digits and a power of ten that are both doubles give the double that they were written
for; with more digits, or further from the point, a reader rounds more than once and may end on a
neighbour.
-/

namespace RecordFilter

open Number

variable {f : Format} {l : Layout} {m c k : ℕ} {e g : ℤ} {s : List Char}

namespace Number

theorem head?_toDigits_ne (hc : 0 < c) : (Nat.toDigits 10 c).head? ≠ some '0' := by
  induction c using Nat.strongRecOn with
  | ind c ih =>
      rw [Nat.toDigits_eq_if (by decide)]
      split
      · interval_cases c <;> decide
      · rw [List.head?_append_of_ne_nil _ Nat.toDigits_ne_nil]
        exact ih (c / 10) (by omega) (by omega)

theorem pos_of_holds {x y : ℚ} (hm : 0 < m) (h : (Interval.of f m e).Holds (c * x * y)) :
    0 < c := by
  have hpos := Interval.pos_of_holds hm h
  refine Nat.pos_of_ne_zero ?_
  rintro rfl
  rw [Nat.cast_zero, zero_mul, zero_mul] at hpos
  exact lt_irrefl 0 hpos

theorem shortest_pos (hf : f.Decimal) (t : Tie) (h : f.Canonical m e) (hm : 0 < m) :
    0 < (shortest f t m e).1 :=
  pos_of_holds hm (holds_shortest hf t h hm)

namespace Layout

theorem standard_plainNumeral (hl : ∀ c ∈ l.wholeFraction, c.isDigit = true) (negative : Bool)
    (hne : s ≠ []) (hdigits : ∀ c ∈ s, c.isDigit = true) (hzero : s.head? ≠ some '0') (lead : ℤ) :
    (l.plainNumeral negative s lead).Standard := by
  obtain ⟨hwhole, hwholeDigits, hfraction, -⟩ := plain_plainNumeral hl negative hne hdigits lead
  refine ⟨hwhole, hwholeDigits, ?_, hfraction⟩
  unfold plainNumeral
  dsimp only
  split
  · intro _
    rfl
  · split
    · rw [List.head?_append_of_ne_nil _ hne]
      intro hhead
      exact absurd hhead hzero
    · intro hhead
      rw [List.head?_take, Option.ite_none_left_eq_some] at hhead
      exact absurd hhead.2 hzero

theorem standard_exponentNumeral (negative : Bool) (hne : s ≠ [])
    (hdigits : ∀ c ∈ s, c.isDigit = true) (hzero : s.head? ≠ some '0') (lead : ℤ) :
    (exponentNumeral negative s lead).Standard := by
  refine ⟨by simp [exponentNumeral, hne], fun c hc => hdigits c (List.mem_of_mem_take hc), ?_,
    fun c hc => hdigits c (List.mem_of_mem_drop hc)⟩
  intro hhead
  rw [exponentNumeral, List.head?_take, Option.ite_none_left_eq_some] at hhead
  exact absurd hhead.2 hzero

theorem standard_numeral (hf : f.Decimal) (hl : ∀ c ∈ l.wholeFraction, c.isDigit = true)
    (negative : Bool) (h : f.Canonical m e) : (l.numeral f negative m e).Standard := by
  unfold numeral
  split
  · exact ⟨by simp, by simp, fun _ => rfl, hl⟩
  · next hm =>
      have hzero := head?_toDigits_ne (shortest_pos hf l.tie h (Nat.pos_of_ne_zero hm))
      have hdigits : ∀ c ∈ Nat.toDigits 10 (shortest f l.tie m e).1, c.isDigit = true :=
        fun _ => isDigit_of_mem_toDigits
      dsimp only
      split
      · exact standard_plainNumeral hl negative Nat.toDigits_ne_nil hdigits hzero _
      · exact standard_exponentNumeral negative Nat.toDigits_ne_nil hdigits hzero _

end Layout

theorem Numeral.standard_ofInt (k : ℤ) : (Numeral.ofInt k).Standard := by
  refine ⟨Nat.toDigits_ne_nil, fun _ => isDigit_of_mem_toDigits, ?_, by simp [Numeral.ofInt]⟩
  intro hhead
  rcases Nat.eq_zero_or_pos k.natAbs with hzero | hpos
  · rw [Numeral.ofInt, hzero]
    rfl
  · exact absurd hhead (head?_toDigits_ne hpos)

end Number

namespace Json

theorem legible_ofBinary {f : Format} {l : Layout} (hf : f.Decimal) (hl : l.wholeFraction = ['0'])
    (x : Binary f) : (ofBinary l x).Legible := by
  cases x with
  | nan => exact .null
  | infinite s => exact .null
  | finite s m e h =>
      exact .number (Layout.standard_numeral hf (by simp [hl]) s h)

theorem le_ofDigitChars (n : ℕ) (s : List Char) : n ≤ Nat.ofDigitChars 10 s n := by
  rw [Nat.ofDigitChars_eq_ofDigitChars_zero]
  exact (Nat.le_mul_of_pos_left n (Nat.pow_pos (by decide))).trans (Nat.le_add_right _ _)

theorem gatherWhole_eq {n : ℕ} (h : Nat.ofDigitChars 10 s n ≤ gatherLimit) :
    gatherWhole n s = (Nat.ofDigitChars 10 s n, 0) := by
  induction s generalizing n with
  | nil => rfl
  | cons c s ih =>
      rw [Nat.ofDigitChars_cons, mul_comm 10 n] at h ⊢
      have hnext := (le_ofDigitChars _ s).trans h
      rw [gatherWhole, if_neg (not_lt.mpr hnext), ih h]

theorem gatherFraction_eq {n : ℕ} (h : Nat.ofDigitChars 10 s n ≤ gatherLimit) :
    gatherFraction n s = (Nat.ofDigitChars 10 s n, s.length) := by
  induction s generalizing n with
  | nil => rfl
  | cons c s ih =>
      rw [Nat.ofDigitChars_cons, mul_comm 10 n] at h ⊢
      have hnext := (le_ofDigitChars _ s).trans h
      rw [gatherFraction, if_neg (not_lt.mpr hnext), ih h, List.length_cons]

/-- Where 64 bits hold all digits of a number, none of them is left out. -/
theorem double?_eq {n : Numeral} (h : n.significand ≤ gatherLimit) :
    double? n = (scaleByTen? (.ofInt n.significand) n.power).map fun x =>
      if n.negative then x.negate else x := by
  rw [Numeral.significand, readDigits, Nat.ofDigitChars_append] at h
  rw [double?, gatherWhole_eq ((le_ofDigitChars _ n.fraction).trans h)]
  simp only
  rw [gatherFraction_eq h, Numeral.significand, readDigits, Nat.ofDigitChars_append]
  simp [Numeral.power]

theorem value?_powerOfTen (hk : k ≤ 22) : (powerOfTen k).value? = some (10 ^ k) := by
  have hsplit : Nat.pow 10 k = 5 ^ k * 2 ^ k := mul_pow 5 2 k
  have hfive : 5 ^ k < 2 ^ Format.double.precision :=
    (Nat.pow_le_pow_right (by decide) hk).trans_lt (by decide)
  have hsize : ((5 ^ k * 2 ^ k : ℕ) : ℚ) < 2 ^ Format.double.maxExponent := by
    calc ((5 ^ k * 2 ^ k : ℕ) : ℚ) = 10 ^ k := by rw [← mul_pow]; norm_num
      _ ≤ 10 ^ 22 := pow_le_pow_right₀ (by norm_num) hk
      _ < 2 ^ (74 : ℤ) := by norm_num
      _ ≤ 2 ^ Format.double.maxExponent := zpow_le_zpow_right₀ one_le_two (by decide)
  rw [powerOfTen, hsplit, Binary.value?_round_mul_two_pow regular_double hfive hsize, ← mul_pow]
  norm_num

theorem value?_ofInt (hk : k < 2 ^ 53) : (Binary.ofInt k : Double).value? = some (k : ℚ) := by
  have hsize : ((k * 2 ^ 0 : ℕ) : ℚ) < 2 ^ Format.double.maxExponent := by
    calc ((k * 2 ^ 0 : ℕ) : ℚ) = k := by rw [pow_zero, mul_one]
      _ < 2 ^ (53 : ℤ) := by exact_mod_cast hk
      _ ≤ 2 ^ Format.double.maxExponent := zpow_le_zpow_right₀ one_le_two (by decide)
  have hvalue := Binary.value?_round_mul_two_pow regular_double hk hsize
  rw [pow_zero, mul_one] at hvalue
  exact hvalue

/-- A significand and a power of ten that are both doubles are brought together by one rounding. -/
theorem scaleByTen?_eq_round (hk : 0 < k) (hlt : k < 2 ^ 53) (hg : g.natAbs ≤ 22) :
    scaleByTen? (.ofInt k) g =
      some (.round false (k * Nat.pow 10 g.toNat) (Nat.pow 10 (-g).toNat)) := by
  have hkpos : (0 : ℚ) < k := by exact_mod_cast hk
  have hten : (0 : ℚ) < 10 ^ g.natAbs := by positivity
  have hwhole := value?_ofInt hlt
  have hpower := value?_powerOfTen hg
  rw [scaleByTen?]
  split
  · next hnonneg =>
      have habs : g.toNat = g.natAbs := by omega
      have hnone : (-g).toNat = 0 := by omega
      have hround : (Binary.ofInt k : Double).mul (powerOfTen g.natAbs) =
          .round false (k * Nat.pow 10 g.natAbs) 1 :=
        Binary.mul_eq_round hwhole hpower hkpos hten one_pos
          (by rw [Nat.pow_eq, Nat.cast_one, div_one]; push_cast; rfl)
      have hfinite : (Binary.round false (k * Nat.pow 10 g.natAbs) 1 : Double).isFinite = true := by
        refine Binary.isFinite_round regular_double _ one_pos (e := 127) ?_ (by decide)
        have hpow : (10 : ℚ) ^ g.natAbs ≤ 10 ^ 22 := pow_le_pow_right₀ (by norm_num) hg
        have hcast : (k : ℚ) ≤ 2 ^ 53 := by exact_mod_cast hlt.le
        rw [Nat.pow_eq, Nat.cast_one, div_one]
        push_cast
        calc (k : ℚ) * 10 ^ g.natAbs ≤ 2 ^ 53 * 10 ^ 22 := by gcongr
          _ ≤ 2 ^ (127 : ℤ) := by norm_num
      rw [if_pos (by omega), habs, hround, hnone, if_pos hfinite]
  · next hneg =>
      have habs : (-g).toNat = g.natAbs := by omega
      have hnone : g.toNat = 0 := by omega
      have hround : (Binary.ofInt k : Double).div (powerOfTen g.natAbs) =
          .round false (k * Nat.pow 10 0) (Nat.pow 10 g.natAbs) :=
        Binary.div_eq_round hwhole hpower hkpos hten (Nat.pow_pos (by decide))
          (by rw [Nat.pow_eq, Nat.pow_eq, pow_zero]; push_cast; rw [mul_one])
      rw [Nat.div_eq_of_lt (by omega), scaleDown, hround, habs, hnone]

/-- A binary number is written with a fraction or with an exponent, and so never as a whole one. -/
theorem whole?_numeral (hl : l.wholeFraction ≠ []) (negative : Bool) :
    whole? (l.numeral f negative m e) = none := by
  have hwritten : (l.numeral f negative m e).fraction ≠ [] ∨
      (l.numeral f negative m e).exponent ≠ none := by
    unfold Layout.numeral
    split
    · exact .inl hl
    · dsimp only
      split
      · left
        unfold Layout.plainNumeral
        dsimp only
        split
        · exact List.append_ne_nil_of_right_ne_nil _ Nat.toDigits_ne_nil
        · split
          · exact hl
          · next hlength =>
              rw [ne_eq, List.drop_eq_nil_iff]
              exact hlength
      · right
        exact Option.some_ne_none _
  rw [whole?, if_neg]
  simpa [imp_iff_not_or] using hwritten

theorem whole?_ofInt (hmin : -2 ^ 63 ≤ g) (hmax : g < 2 ^ 64) : whole? (.ofInt g) = some g := by
  have hsignificand : (Numeral.ofInt g).significand = g.natAbs := by
    rw [Numeral.significand, Numeral.ofInt, List.append_nil, readDigits_toDigits]
  rw [whole?, hsignificand, Nat.pow_eq, Nat.pow_eq]
  by_cases hneg : g < 0
  · have habs : 0 < g.natAbs ∧ g.natAbs ≤ 2 ^ 63 := by omega
    have hsign : -(g.natAbs : ℤ) = g := by omega
    simp only [Numeral.ofInt, hneg, habs, hsign]
    rfl
  · have habs : g.natAbs < 2 ^ 64 := by omega
    have hsign : (g.natAbs : ℤ) = g := by omega
    simp only [Numeral.ofInt, hneg, habs, hsign]
    rfl

end Json

/-- The digits are a whole number that a double holds, and so is the power of ten. -/
def Number.Numeral.Concise (n : Numeral) : Prop :=
  n.significand < 2 ^ 53 ∧ n.power.natAbs ≤ 22

instance (n : Numeral) : Decidable n.Concise :=
  inferInstanceAs (Decidable (_ ∧ _))

namespace Json

/-- Zero has no digits to be scaled. -/
theorem scaleByTen?_zero (hg : g.natAbs ≤ 22) : scaleByTen? (.ofInt 0) g = some (.zero false) := by
  have hall : ∀ k < 23, scaleByTen? (.ofInt 0) (k : ℕ) = some (.zero false) ∧
      scaleByTen? (.ofInt 0) (-(k : ℕ)) = some (.zero false) := by
    decide +kernel
  obtain ⟨k, rfl | rfl⟩ := g.eq_nat_or_neg
  · exact (hall k (by omega)).1
  · exact (hall k (by omega)).2

theorem toBinary_of_concise {n : Numeral} (hn : n.Concise) (hne : n.significand ≠ 0) :
    n.toBinary .double =
      .round n.negative (n.significand * Nat.pow 10 n.power.toNat)
        (Nat.pow 10 (-n.power).toNat) := by
  obtain ⟨hlt, hg⟩ := hn
  have hone : (1 : ℚ) ≤ n.significand := by exact_mod_cast Nat.pos_of_ne_zero hne
  have hcast : (n.significand : ℚ) ≤ 2 ^ 53 := by exact_mod_cast hlt.le
  apply Numeral.toBinary_eq_round regular_double hne
  · calc (2 : ℚ) ^ (Format.double.minExponent - 1) ≤ 2 ^ (-74 : ℤ) :=
          zpow_le_zpow_right₀ one_le_two (by decide)
      _ ≤ 1 * 10 ^ (-22 : ℤ) := by norm_num
      _ ≤ n.significand * 10 ^ n.power := by
          gcongr
          · norm_num
          · omega
  · calc n.significand * (10 : ℚ) ^ n.power ≤ 2 ^ 53 * 10 ^ (22 : ℤ) := by
          gcongr
          · norm_num
          · omega
      _ < 2 ^ (127 : ℤ) := by norm_num
      _ ≤ 2 ^ (Format.double.maxExponent + Format.double.precision) :=
          zpow_le_zpow_right₀ one_le_two (by decide)

/-- With few digits not far from the point, a number is rounded once. -/
theorem double?_of_concise {n : Numeral} (hn : n.Concise) :
    double? n = some (n.toBinary .double) := by
  rw [double?_eq (hn.1.le.trans (by decide))]
  by_cases hne : n.significand = 0
  · rw [hne, Nat.cast_zero, scaleByTen?_zero hn.2, Numeral.toBinary, if_pos hne]
    cases n.negative <;> rfl
  · rw [scaleByTen?_eq_round (Nat.pos_of_ne_zero hne) hn.1 hn.2, toBinary_of_concise hn hne,
      Option.map_some]
    cases n.negative
    · rfl
    · rw [if_pos rfl, Binary.negate_round]

/-- A binary number that is written with few digits not far from the point is read as the double
nearest to these, in its own format. -/
theorem binary?_numeral (hl : l.wholeFraction ≠ []) (negative : Bool)
    (hn : (l.numeral f negative m e).Concise) :
    binary? f (l.numeral f negative m e) =
      some ((l.numeral f negative m e).toBinary .double).convert := by
  rw [binary?, whole?_numeral hl, double?_of_concise hn]
  rfl

end Json

end RecordFilter
