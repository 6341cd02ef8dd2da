import RecordFilter.Number.Literal
import RecordFilter.Proofs.Number.Value
import RecordFilter.Proofs.Text.Run

/-!
Numerals without an exponent: what their text reads as, and the number nearest to their value.
-/

namespace RecordFilter.Number

/-- Ten is a little more than three and two sevenths doublings, and a little less than three and
a third. -/
theorem ten_zpow_le_two_zpow {a b : ℤ} (hpos : 196 * a ≤ 59 * b) (hneg : 93 * a ≤ 28 * b) :
    (10 : ℚ) ^ a ≤ 2 ^ b := by
  obtain ⟨k, rfl | rfl⟩ := a.eq_nat_or_neg
  · obtain ⟨j, rfl⟩ := Int.eq_ofNat_of_zero_le (show 0 ≤ b by omega)
    rw [zpow_natCast, zpow_natCast, ← pow_le_pow_iff_left₀ (by positivity) (by positivity)
      (show 59 ≠ 0 by decide)]
    calc ((10 : ℚ) ^ k) ^ 59 = (10 ^ 59) ^ k := by rw [← pow_mul, ← pow_mul, mul_comm]
      _ ≤ (2 ^ 196) ^ k := by gcongr; norm_num
      _ = 2 ^ (196 * k) := by rw [← pow_mul]
      _ ≤ 2 ^ (j * 59) := pow_le_pow_right₀ one_le_two (by omega)
      _ = (2 ^ j) ^ 59 := by rw [← pow_mul]
  · rcases le_or_gt 0 b with hb | hb
    · calc (10 : ℚ) ^ (-(k : ℤ)) ≤ 1 := zpow_le_one_of_nonpos₀ (by norm_num) (by omega)
        _ ≤ 2 ^ b := one_le_zpow₀ one_le_two hb
    · obtain ⟨j, rfl⟩ : ∃ j : ℕ, b = -j := ⟨b.natAbs, by omega⟩
      rw [zpow_neg, zpow_neg, zpow_natCast, zpow_natCast]
      refine inv_anti₀ (by positivity) ?_
      rw [← pow_le_pow_iff_left₀ (by positivity) (by positivity) (show 28 ≠ 0 by decide)]
      calc ((2 : ℚ) ^ j) ^ 28 = 2 ^ (j * 28) := by rw [← pow_mul]
        _ ≤ 2 ^ (93 * k) := pow_le_pow_right₀ one_le_two (by omega)
        _ = (2 ^ 93) ^ k := by rw [← pow_mul]
        _ ≤ (10 ^ 28) ^ k := by gcongr; norm_num
        _ = (10 ^ k) ^ 28 := by rw [← pow_mul, ← pow_mul, mul_comm]

variable {f : Format} {n : Numeral} {s body whole fraction : List Char} {negative : Bool}

namespace Numeral

/-- The value of a numeral without its sign. -/
def size (n : Numeral) : ℚ :=
  n.significand * 10 ^ n.power

theorem cast_size (n : Numeral) :
    ((n.significand * Nat.pow 10 n.power.toNat : ℕ) : ℚ) / (Nat.pow 10 (-n.power).toNat : ℕ) =
      n.size := by
  rw [size, zpow_eq_div (show (10 : ℚ) ≠ 0 by norm_num), ← mul_div_assoc, Nat.pow_eq, Nat.pow_eq]
  push_cast
  rfl

theorem size_lt (n : Numeral) : n.size < 10 ^ n.lead := by
  have hlt : n.significand < 10 ^ (Nat.toDigits 10 n.significand).length :=
    (Nat.length_toDigits_le_iff (by decide) Nat.length_toDigits_pos).mp le_rfl
  rw [size, lead, zpow_add₀ (by norm_num), zpow_natCast]
  gcongr
  exact_mod_cast hlt

theorem le_size (h : n.significand ≠ 0) : 10 ^ (n.lead - 1) ≤ n.size := by
  have hlength := Nat.length_toDigits_pos (b := 10) (n := n.significand)
  have hle : 10 ^ ((Nat.toDigits 10 n.significand).length - 1) ≤ n.significand := by
    rcases Nat.eq_zero_or_pos ((Nat.toDigits 10 n.significand).length - 1) with hzero | hpos
    · rw [hzero]
      omega
    · refine not_lt.mp (mt (Nat.length_toDigits_le_iff (by decide) hpos).mpr ?_)
      omega
  have hsum : n.lead - 1 = ((Nat.toDigits 10 n.significand).length - 1 : ℕ) + n.power := by
    rw [lead]
    omega
  rw [size, hsum, zpow_add₀ (by norm_num), zpow_natCast]
  gcongr
  exact_mod_cast hle

/-- Neither of the two bounds on the leading digit is met by a value that the format reaches. -/
theorem toBinary_eq_round (hf : f.Regular) (h : n.significand ≠ 0)
    (hlow : 2 ^ (f.minExponent - 1) ≤ n.size)
    (hhigh : n.size < 2 ^ (f.maxExponent + f.precision)) :
    n.toBinary f =
      .round n.negative (n.significand * Nat.pow 10 n.power.toNat)
        (Nat.pow 10 (-n.power).toNat) := by
  have hmin := hf.minExponent_nonpos
  have hmax := hf.le_maxExponent
  have hover : ¬ f.maxExponent + f.precision + 1 < n.lead := by
    intro hlead
    have hten : (10 : ℚ) ^ (f.maxExponent + f.precision) ≤ 10 ^ (n.lead - 1) :=
      zpow_le_zpow_right₀ (by norm_num) (by omega)
    have htwo : (2 : ℚ) ^ (f.maxExponent + f.precision) ≤ 10 ^ (f.maxExponent + f.precision) :=
      zpow_le_zpow_left₀ (by omega) (by norm_num) (by norm_num)
    linarith [le_size h]
  have hunder : ¬ n.lead < f.minExponent - 1 := by
    intro hlead
    have hten : (10 : ℚ) ^ n.lead ≤ 2 ^ (f.minExponent - 1) :=
      ten_zpow_le_two_zpow (by omega) (by omega)
    linarith [n.size_lt]
  rw [toBinary, if_neg h, if_neg hover, if_neg hunder]

/-- The value of a number read from a numeral is the nearest one, unless this is past all numbers of
the format. A leading digit that settles this on its own settles it in the same way. -/
theorem value?_toBinary (hf : f.Regular) (n : Numeral) :
    (n.toBinary f).value? =
      if f.nearest n.size < f.limit then some (withSign n.negative (f.nearest n.size))
      else none := by
  have hp := hf.precision_pos
  have hmin := hf.minExponent_nonpos
  have hmax := hf.le_maxExponent
  have hzero : (Binary.zero n.negative : Binary f).value? =
      if (0 : ℚ) < f.limit then some (withSign n.negative 0) else none := by
    rw [Binary.value?_zero hf, if_pos f.limit_pos]
    cases n.negative <;> simp [withSign]
  by_cases h : n.significand = 0
  · rw [toBinary, if_pos h, hzero, size, h, Nat.cast_zero, zero_mul, Format.nearest_zero]
  · have hsize : 0 < n.size := (zpow_pos (by norm_num) _).trans_le (le_size h)
    rw [toBinary, if_neg h]
    split
    · next hover =>
        have hten : (10 : ℚ) ^ (f.maxExponent + f.precision) ≤ 10 ^ (n.lead - 1) :=
          zpow_le_zpow_right₀ (by norm_num) (by omega)
        have htwo : f.limit ≤ 10 ^ (f.maxExponent + f.precision) :=
          zpow_le_zpow_left₀ (by omega) (by norm_num) (by norm_num)
        have hpast : f.limit ≤ f.nearest n.size := by
          rw [← hf.nearest_limit]
          exact Format.nearest_mono hp (htwo.trans (hten.trans (le_size h)))
        rw [if_neg (not_lt.mpr hpast)]
        rfl
    · split
      · next hunder =>
          have hten : (10 : ℚ) ^ n.lead ≤ 2 ^ (f.minExponent - 1) :=
            ten_zpow_le_two_zpow (by omega) (by omega)
          rw [hf.nearest_eq_zero hsize (n.size_lt.trans_le hten), hzero]
      · have hden : 0 < Nat.pow 10 (-n.power).toNat := Nat.pow_pos (by decide)
        rw [Binary.value?_round hf _ _ hden, cast_size]

theorem toBinary_cases (f : Format) (n : Numeral) :
    n.toBinary f = .infinite n.negative ∨ ∃ m e h, n.toBinary f = .finite n.negative m e h := by
  unfold toBinary
  split
  · exact Binary.ofParts_cases _ _ _
  · split
    · exact .inl rfl
    · split
      · exact Binary.ofParts_cases _ _ _
      · exact Binary.round_cases _ _ _

theorem toBinary_eq_infinite_iff (hf : f.Regular) :
    n.toBinary f = .infinite negative ↔ n.negative = negative ∧ f.limit ≤ f.nearest n.size := by
  have hvalue := value?_toBinary hf n
  rcases toBinary_cases f n with hcase | ⟨m, e, h, hcase⟩
  · have hpast : ¬f.nearest n.size < f.limit := by
      intro hbelow
      rw [if_pos hbelow, hcase] at hvalue
      cases hvalue
    rw [hcase, Binary.infinite.injEq, and_iff_left (not_lt.mp hpast)]
  · have hbelow : f.nearest n.size < f.limit := by
      by_contra hpast
      rw [if_neg hpast, hcase] at hvalue
      cases hvalue
    rw [hcase]
    exact iff_of_false nofun fun hpast => absurd hbelow (not_lt.mpr hpast.2)

/-- The value of a numeral. -/
def value (n : Numeral) : ℚ :=
  withSign n.negative n.size

theorem nearest_value (f : Format) (n : Numeral) :
    f.nearest n.value = withSign n.negative (f.nearest n.size) := by
  rw [value]
  cases n.negative
  · rfl
  · exact f.nearest_neg n.size

theorem size_nonneg (n : Numeral) : 0 ≤ n.size :=
  mul_nonneg n.significand.cast_nonneg (zpow_nonneg (by norm_num) _)

theorem value?_toBinary_eq_some_iff (hf : f.Regular) {v : ℚ} (hv : |v| < f.limit) :
    (n.toBinary f).value? = some v ↔ f.nearest n.value = v := by
  rw [value?_toBinary hf, nearest_value]
  split
  · rw [Option.some_inj]
  · next hpast =>
      refine iff_of_false nofun ?_
      rintro rfl
      rw [abs_withSign, abs_of_nonneg (f.nearest_nonneg n.size_nonneg)] at hv
      exact hpast hv

end Numeral

namespace Literal

open Numeral (pointText)

theorem toLower_of_isDigit {c : Char} (h : c.isDigit = true) : c.toLower = c := by
  have hrange : ¬(c.val ≥ 'A'.val ∧ c.val ≤ 'Z'.val) := by
    rintro ⟨hlow, -⟩
    simp only [Char.isDigit, Bool.and_eq_true, decide_eq_true_eq] at h
    exact absurd (UInt32.le_trans hlow h.2) (by decide)
  rw [Char.toLower, dif_neg hrange]

/-- No word is a run of digits. -/
theorem sameLetters_of_isDigit {c d : Char} {t : List Char} (hc : c.isDigit = true)
    (hd : d.toLower.isDigit = false) : Text.sameLetters (c :: s) (d :: t) = false := by
  rw [Text.sameLetters, beq_eq_false_iff_ne]
  intro h
  have hhead : c.toLower = d.toLower := (List.cons.inj h).1
  rw [toLower_of_isDigit hc] at hhead
  rw [← hhead, hc] at hd
  cases hd

theorem startsOutside_pointText (fraction : List Char) :
    Text.StartsOutside Char.isDigit (pointText fraction) := by
  cases fraction with
  | nil => exact Text.startsOutside_nil
  | cons c fraction => exact Text.startsOutside_cons (by decide)

theorem splitFraction_pointText (h : ∀ c ∈ fraction, c.isDigit = true) :
    splitFraction (pointText fraction) = (fraction, []) := by
  cases fraction with
  | nil => rfl
  | cons c fraction =>
      have hspan := Text.span_append h (Text.startsOutside_nil (p := Char.isDigit))
      rwa [List.append_nil] at hspan

theorem readNumeral?_digits (negative : Bool) (hne : whole ≠ [])
    (hwhole : ∀ c ∈ whole, c.isDigit = true) (hfraction : ∀ c ∈ fraction, c.isDigit = true) :
    readNumeral? negative (whole ++ pointText fraction) =
      some ⟨negative, whole, fraction, none⟩ := by
  rw [readNumeral?, Text.span_append hwhole (startsOutside_pointText fraction)]
  simp only [splitFraction_pointText hfraction, List.isEmpty_eq_false_iff.mpr hne, readExponent?]
  rfl

/-- Digits with a point among them, and a sign before them, are the numeral they look like. -/
theorem read?_digits (hsign : splitSign s = (negative, whole ++ pointText fraction))
    (hne : whole ≠ []) (hwhole : ∀ c ∈ whole, c.isDigit = true)
    (hfraction : ∀ c ∈ fraction, c.isDigit = true) :
    read? s = some (.numeral ⟨negative, whole, fraction, none⟩) := by
  have hread := readNumeral?_digits negative hne hwhole hfraction
  obtain ⟨c, rest, rfl⟩ := List.exists_cons_of_ne_nil hne
  have hc := hwhole c List.mem_cons_self
  rw [List.cons_append] at hsign hread
  have hnan : Text.sameLetters (c :: (rest ++ pointText fraction)) "nan".toList = false :=
    sameLetters_of_isDigit hc (by decide)
  have hinf : Text.sameLetters (c :: (rest ++ pointText fraction)) "inf".toList = false :=
    sameLetters_of_isDigit hc (by decide)
  have hinfinity : Text.sameLetters (c :: (rest ++ pointText fraction)) "infinity".toList = false :=
    sameLetters_of_isDigit hc (by decide)
  rw [read?, hsign]
  simp only [hnan, hinf, hinfinity, hread]
  rfl

end Literal

theorem readInt?_eq_some {k : ℤ} (h : readInt? s = some k) :
    ∃ negative digits, splitSign s = (negative, digits) ∧ digits ≠ [] ∧
      (∀ c ∈ digits, c.isDigit = true) ∧ k = signed negative (readDigits digits) := by
  unfold readInt? at h
  dsimp only at h
  split at h
  · cases h
  · next hdigits =>
      rw [Bool.or_eq_true, not_or, List.isEmpty_iff, Bool.not_eq_true, Bool.not_eq_false',
        List.all_eq_true] at hdigits
      exact ⟨_, _, rfl, hdigits.1, hdigits.2, (Option.some.inj h).symm⟩

/-- A whole number is the numeral of its digits. -/
theorem read?_of_readInt? {k : ℤ} (h : readInt? s = some k) :
    ∃ n, Literal.read? s = some (.numeral n) ∧ n.value = k := by
  obtain ⟨negative, digits, hsign, hne, hdigits, rfl⟩ := readInt?_eq_some h
  refine ⟨⟨negative, digits, [], none⟩,
    Literal.read?_digits (by rw [hsign, Numeral.pointText, List.append_nil]) hne hdigits (by simp),
    ?_⟩
  cases negative <;> simp [Numeral.value, Numeral.size, Numeral.significand, Numeral.power,
    withSign, signed]

/-- A whole number reads as the number of the format nearest to it. -/
theorem readBinary?_of_readInt? (hf : f.Regular) {k : ℤ} (h : readInt? s = some k)
    (hk : k.natAbs < 2 ^ 64) : ∃ x, readBinary? f s = some x ∧ x.value? = some (f.nearest k) := by
  obtain ⟨n, hread, hvalue⟩ := read?_of_readInt? h
  refine ⟨n.toBinary f, by rw [readBinary?, hread]; rfl, ?_⟩
  have hp := hf.precision_pos
  have hmax := hf.le_maxExponent
  have habs : |(k : ℚ)| ≤ 2 ^ (64 : ℤ) := by
    rw [← Int.cast_abs, ← Int.natCast_natAbs]
    exact_mod_cast hk.le
  rw [Numeral.value?_toBinary_eq_some_iff hf (hf.abs_nearest_lt_limit habs (by omega)), hvalue]

theorem isNaN_toBinary_numeral (f : Format) (n : Numeral) : (n.toBinary f).isNaN = false := by
  rcases n.toBinary_cases f with hcase | ⟨m, e, h, hcase⟩ <;> rw [hcase] <;> rfl

/-- Which texts are numbers other than NaN does not depend on the format. -/
theorem filter_readBinary?_eq_none_iff (f : Format) (s : List Char) :
    (readBinary? f s).filter (fun x => !x.isNaN) = none ↔
      Literal.read? s = none ∨ Literal.read? s = some .nan := by
  rw [readBinary?]
  cases Literal.read? s with
  | none => simp
  | some l =>
      cases l with
      | nan => simp [Literal.toBinary, Binary.isNaN]
      | infinite a => simp [Literal.toBinary, Binary.isNaN]
      | numeral n => simp [Literal.toBinary, isNaN_toBinary_numeral]

/-- A number read as a double is a literal other than NaN, and so has a number in every format. -/
theorem exists_literal_of_readNumber? {x : Double} (h : readNumber? s = some x) :
    ∃ l, Literal.read? (Text.trim s) = some l ∧ l.toBinary .double = x ∧
      ∀ f, (readBinary? f (Text.trim s)).filter (fun y => !y.isNaN) = some (l.toBinary f) := by
  have hread : ¬(Literal.read? (Text.trim s) = none ∨ Literal.read? (Text.trim s) = some .nan) := by
    rw [← filter_readBinary?_eq_none_iff .double]
    exact Option.ne_none_iff_exists'.mpr ⟨x, h⟩
  rw [not_or] at hread
  obtain ⟨l, hl⟩ := Option.ne_none_iff_exists'.mp hread.1
  have hnumber (f : Format) :
      (readBinary? f (Text.trim s)).filter (fun y => !y.isNaN) = some (l.toBinary f) := by
    have hnan : (l.toBinary f).isNaN = false := by
      cases l with
      | nan => exact absurd hl hread.2
      | infinite negative => rfl
      | numeral n => exact isNaN_toBinary_numeral f n
    rw [readBinary?, hl, Option.map_some, Option.filter_some, hnan]
    rfl
  refine ⟨l, hl, ?_, hnumber⟩
  exact Option.some_inj.mp ((hnumber .double).symm.trans h)

end RecordFilter.Number
