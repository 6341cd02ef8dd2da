import RecordFilter.Proofs.Number.Shortest
import RecordFilter.Proofs.Text.Trim

/-!
Written numbers read back: whichever way the digits of a number are laid out, the numeral stands for
a value that rounds to the number.
-/

namespace RecordFilter.Number

variable {f : Format} {m c j : ℕ} {e g : ℤ} {n : Numeral} {negative : Bool} {s : List Char}

namespace Numeral

theorem toBinary_of_holds (hf : f.Regular) (h : f.Canonical m e) (hm : 0 < m)
    (hholds : (Interval.of f m e).Holds (n.size * 2 ^ (2 - e))) :
    n.toBinary f = .finite n.negative m e h := by
  obtain ⟨hlow, hhigh⟩ := Interval.le_of_holds hm hholds
  have hmone : (1 : ℚ) ≤ m := by exact_mod_cast hm
  have hlt : (m : ℚ) + 1 ≤ 2 ^ f.precision := by exact_mod_cast h.1
  have hunit : n.size = n.size * 2 ^ (2 - e) * 2 ^ (e - 2) := by
    rw [mul_assoc, ← zpow_add₀ two_ne_zero, sub_add_sub_cancel, sub_self, zpow_zero, mul_one]
  have hne : n.significand ≠ 0 := by
    intro hzero
    rw [size, hzero, Nat.cast_zero, zero_mul, zero_mul] at hlow
    linarith
  have hleast : (2 : ℚ) ^ (f.minExponent - 1) ≤ n.size := by
    calc (2 : ℚ) ^ (f.minExponent - 1) ≤ 2 ^ (1 + (e - 2)) :=
          zpow_le_zpow_right₀ one_le_two (by have hmin := h.2.1; omega)
      _ = 2 * 2 ^ (e - 2) := by rw [zpow_add₀ two_ne_zero, zpow_one]
      _ ≤ n.size * 2 ^ (2 - e) * 2 ^ (e - 2) :=
          mul_le_mul_of_nonneg_right (by linarith) (two_zpow_pos _).le
      _ = n.size := hunit.symm
  have hgreatest : n.size < 2 ^ (f.maxExponent + f.precision) := by
    calc n.size = n.size * 2 ^ (2 - e) * 2 ^ (e - 2) := hunit
      _ < 4 * 2 ^ f.precision * 2 ^ (e - 2) :=
          mul_lt_mul_of_pos_right (by linarith) (two_zpow_pos _)
      _ = 2 ^ (e + f.precision) := by
          rw [zpow_sub₀ two_ne_zero, zpow_add₀ two_ne_zero, zpow_natCast]
          ring
      _ ≤ 2 ^ (f.maxExponent + f.precision) :=
          zpow_le_zpow_right₀ one_le_two (by have hmax := h.2.2.1; omega)
  rw [toBinary_eq_round hf hne hleast hgreatest]
  apply Binary.round_of_value hf h hm _ _ n.cast_size hholds
  · exact Nat.mul_pos (Nat.pos_of_ne_zero hne) (Nat.pow_pos (by decide))
  · exact Nat.pow_pos (by decide)

end Numeral

theorem readDigits_append (s t : List Char) :
    readDigits (s ++ t) = 10 ^ t.length * readDigits s + readDigits t := by
  rw [readDigits, Nat.ofDigitChars_append, Nat.ofDigitChars_eq_ofDigitChars_zero]
  rfl

theorem readDigits_replicate_zero (k : ℕ) : readDigits (List.replicate k '0') = 0 := by
  rw [readDigits, Nat.ofDigitChars_replicate_zero, mul_zero]

namespace Numeral

theorem size_eq (hsignificand : n.significand = 10 ^ j * c) (hpower : n.power = g - j) :
    n.size = c * 10 ^ g := by
  rw [size, hsignificand, hpower, zpow_sub₀ (by norm_num), zpow_natCast]
  push_cast
  field_simp

end Numeral

namespace Layout

variable {l : Layout}

theorem negative_plainNumeral (l : Layout) (negative : Bool) (s : List Char) (lead : ℤ) :
    (l.plainNumeral negative s lead).negative = negative := by
  unfold plainNumeral
  dsimp only
  split
  · rfl
  · split <;> rfl

theorem size_plainNumeral (hl : readDigits l.wholeFraction = 0) (negative : Bool) (c : ℕ) (g : ℤ) :
    (l.plainNumeral negative (Nat.toDigits 10 c) ((Nat.toDigits 10 c).length - 1 + g)).size =
      c * 10 ^ g := by
  have hlength : 0 < (Nat.toDigits 10 c).length := Nat.length_toDigits_pos
  have hread : readDigits (Nat.toDigits 10 c) = c := readDigits_toDigits c
  generalize Nat.toDigits 10 c = digits at hlength hread ⊢
  unfold plainNumeral
  dsimp only
  split
  · have hzero : readDigits ['0'] = 0 := readDigits_replicate_zero 1
    apply Numeral.size_eq (j := 0)
    · rw [Numeral.significand, readDigits_append, readDigits_append, readDigits_replicate_zero,
        hread, hzero, mul_zero, mul_zero, zero_add, zero_add, pow_zero, one_mul]
    · rw [Numeral.power]
      simp only [List.length_append, List.length_replicate, Option.getD_none]
      omega
  · split
    -- Behind the digits there are zeros only, those before the point and those after it.
    · apply Numeral.size_eq
        (j := (digits.length - 1 + g + 1).toNat - digits.length + l.wholeFraction.length)
      · rw [Numeral.significand, readDigits_append, readDigits_append, readDigits_replicate_zero,
          hread, hl, List.length_replicate, add_zero, add_zero, ← mul_assoc, ← pow_add, add_comm]
      · rw [Numeral.power]
        simp only [Option.getD_none]
        omega
    · apply Numeral.size_eq (j := 0)
      · rw [Numeral.significand, List.take_append_drop, hread, pow_zero, one_mul]
      · rw [Numeral.power]
        simp only [List.length_drop, Option.getD_none]
        omega

theorem size_exponentNumeral (negative : Bool) (c : ℕ) (g : ℤ) :
    (exponentNumeral negative (Nat.toDigits 10 c) ((Nat.toDigits 10 c).length - 1 + g)).size =
      c * 10 ^ g := by
  have hlength : 0 < (Nat.toDigits 10 c).length := Nat.length_toDigits_pos
  apply Numeral.size_eq (j := 0)
  · rw [exponentNumeral, Numeral.significand, List.take_append_drop, readDigits_toDigits, pow_zero,
      one_mul]
  · rw [exponentNumeral, Numeral.power]
    simp only [List.length_drop, Option.getD_some]
    omega

theorem negative_numeral (l : Layout) (f : Format) (negative : Bool) (m : ℕ) (e : ℤ) :
    (l.numeral f negative m e).negative = negative := by
  unfold numeral
  split
  · rfl
  · dsimp only
    split
    · exact negative_plainNumeral l negative _ _
    · rfl

theorem size_numeral (hl : readDigits l.wholeFraction = 0) (f : Format) (negative : Bool)
    (hm : m ≠ 0) (e : ℤ) :
    (l.numeral f negative m e).size =
      (shortest f l.tie m e).1 * 10 ^ (shortest f l.tie m e).2 := by
  rw [numeral, if_neg hm]
  dsimp only
  split
  · exact size_plainNumeral hl negative _ _
  · exact size_exponentNumeral negative _ _

/-- Whatever the layout, a written number is rounded to itself. -/
theorem toBinary_numeral (hf : f.Regular) (hf' : f.Decimal) (hl : readDigits l.wholeFraction = 0)
    (negative : Bool) (h : f.Canonical m e) :
    (l.numeral f negative m e).toBinary f = .finite negative m e h := by
  rcases m.eq_zero_or_pos with rfl | hm
  · have hzero : (⟨negative, ['0'], l.wholeFraction, none⟩ : Numeral).significand = 0 := by
      rw [Numeral.significand, readDigits_append, hl, add_zero]
      exact mul_eq_zero_of_right _ (readDigits_replicate_zero 1)
    rw [numeral, if_pos rfl, Numeral.toBinary, if_pos hzero, Binary.zero_eq h]
  · rw [Numeral.toBinary_of_holds hf h hm, negative_numeral]
    rw [size_numeral hl f negative hm.ne']
    exact holds_shortest hf' l.tie h hm

theorem nearest_value_numeral (hf : f.Regular) (hf' : f.Decimal)
    (hl : readDigits l.wholeFraction = 0) (negative : Bool) (h : f.Canonical m e) :
    f.nearest (l.numeral f negative m e).value = withSign negative (m * 2 ^ e) := by
  rw [← Numeral.value?_toBinary_eq_some_iff hf (hf.abs_withSign_lt_limit negative h),
    toBinary_numeral hf hf' hl negative h, Binary.value?]

end Layout

/-- Digits before the point, maybe digits after it, and no exponent. -/
structure Numeral.Plain (n : Numeral) : Prop where
  whole_ne_nil : n.whole ≠ []
  isDigit_of_mem_whole : ∀ c ∈ n.whole, c.isDigit = true
  isDigit_of_mem_fraction : ∀ c ∈ n.fraction, c.isDigit = true
  exponent_eq_none : n.exponent = none

theorem isDigit_of_mem_replicate {k : ℕ} {c : Char} (h : c ∈ List.replicate k '0') :
    c.isDigit = true := by
  rw [List.eq_of_mem_replicate h]
  decide

theorem Layout.plain_plainNumeral {l : Layout} (hl : ∀ c ∈ l.wholeFraction, c.isDigit = true)
    (negative : Bool) (hne : s ≠ []) (hdigits : ∀ c ∈ s, c.isDigit = true) (lead : ℤ) :
    (l.plainNumeral negative s lead).Plain := by
  unfold plainNumeral
  dsimp only
  split
  · refine ⟨by simp, by simp, ?_, rfl⟩
    intro c hc
    exact (List.mem_append.mp hc).elim isDigit_of_mem_replicate (hdigits c)
  · next hlead =>
      split
      · refine ⟨by simp [hne], ?_, hl, rfl⟩
        intro c hc
        exact (List.mem_append.mp hc).elim (hdigits c) isDigit_of_mem_replicate
      · refine ⟨?_, fun c hc => hdigits c (List.mem_of_mem_take hc),
          fun c hc => hdigits c (List.mem_of_mem_drop hc), rfl⟩
        rw [Ne, List.take_eq_nil_iff, not_or]
        exact ⟨by omega, hne⟩

namespace Numeral.Plain

theorem text_eq (h : n.Plain) :
    n.text = (if n.negative then ['-'] else []) ++ (n.whole ++ pointText n.fraction) := by
  rw [text, h.exponent_eq_none, exponentText, List.append_nil, List.append_assoc]

theorem splitSign_text (h : n.Plain) :
    splitSign n.text = (n.negative, n.whole ++ pointText n.fraction) := by
  rw [h.text_eq]
  obtain ⟨c, rest, hwhole⟩ := List.exists_cons_of_ne_nil h.whole_ne_nil
  cases n.negative
  · have hc : c.isDigit = true := h.isDigit_of_mem_whole c (hwhole ▸ List.mem_cons_self)
    rw [if_neg (by decide), List.nil_append, hwhole, List.cons_append, splitSign_of_isDigit hc]
  · rfl

theorem read?_text (h : n.Plain) : Literal.read? n.text = some (.numeral n) := by
  rw [Literal.read?_digits h.splitSign_text h.whole_ne_nil h.isDigit_of_mem_whole
    h.isDigit_of_mem_fraction, ← h.exponent_eq_none]

end Numeral.Plain

theorem Layout.plain_display (f : Format) (negative : Bool) (m : ℕ) (e : ℤ) :
    (display.numeral f negative m e).Plain := by
  unfold numeral
  split
  · exact ⟨by simp, by simp, by simp [display], rfl⟩
  · dsimp only
    rw [if_pos (show display.plain _ = true from rfl)]
    exact plain_plainNumeral (by simp [display]) negative Nat.toDigits_ne_nil
      (fun c hc => isDigit_of_mem_toDigits hc) _

/-- The text of a number reads as that number. -/
theorem readBinary?_displayChars (hf : f.Regular) (hf' : f.Decimal) (x : Binary f) :
    readBinary? f x.displayChars = some x := by
  cases x with
  | nan => rfl
  | infinite negative => cases negative <;> rfl
  | finite negative m e h =>
      rw [readBinary?, Binary.displayChars, (Layout.plain_display f negative m e).read?_text,
        Option.map_some, Literal.toBinary, Layout.toBinary_numeral hf hf' rfl negative h]

end RecordFilter.Number
