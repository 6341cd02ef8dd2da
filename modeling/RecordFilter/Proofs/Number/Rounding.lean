import Mathlib
import RecordFilter.Number.Binary

/-!
Rounding as a function of exact values: a quotient is rounded to the nearest multiple of its last
place. The nearest value keeps the order, and values of the format stay as they are.
-/

namespace RecordFilter.Number

/-- The whole number nearest to a value; of two equally near ones, the even one. -/
def IsNearest (q : ℚ) (n : ℕ) : Prop :=
  |q - n| ≤ 1 / 2 ∧ (|q - n| = 1 / 2 → n % 2 = 0)

namespace IsNearest

variable {q q' : ℚ} {n n' : ℕ}

theorem mono (h : IsNearest q n) (h' : IsNearest q' n') (hle : q ≤ q') : n ≤ n' := by
  by_contra hlt
  have hsucc : (n' : ℚ) + 1 ≤ n := by
    exact_mod_cast not_le.mp hlt
  obtain ⟨hlow, -⟩ := abs_le.mp h.1
  obtain ⟨-, hhigh⟩ := abs_le.mp h'.1
  -- Only the middle of two neighbours might go to one of them here and to the other there.
  have hq : q - n = -(1 / 2) := by linarith
  have hq' : q' - n' = 1 / 2 := by linarith
  have hn : (n : ℚ) = n' + 1 := by linarith
  have heven : n % 2 = 0 := h.2 (by rw [hq, abs_neg, abs_of_pos (by norm_num)])
  have heven' : n' % 2 = 0 := h'.2 (by rw [hq', abs_of_pos (by norm_num)])
  have hsum : n = n' + 1 := by exact_mod_cast hn
  omega

theorem unique (h : IsNearest q n) (h' : IsNearest q n') : n = n' :=
  le_antisymm (h.mono h' le_rfl) (h'.mono h le_rfl)

end IsNearest

theorem isNearest_natCast (n : ℕ) : IsNearest n n := by
  simp [IsNearest]

/-- The same in whole numbers. -/
theorem isNearest_div_iff {num den n : ℕ} (hden : 0 < den) :
    IsNearest (num / den) n ↔
      2 * num ≤ 2 * (n * den) + den ∧ 2 * (n * den) ≤ 2 * num + den ∧
        (2 * num = 2 * (n * den) + den ∨ 2 * (n * den) = 2 * num + den → n % 2 = 0) := by
  have hpos : (0 : ℚ) < 2 * den := by exact_mod_cast Nat.mul_pos two_pos hden
  have hdist : |(num : ℚ) / den - n| = |(2 * num - 2 * (n * den) : ℤ)| / (2 * den) := by
    rw [eq_div_iff hpos.ne', ← abs_of_pos hpos, ← abs_mul]
    push_cast
    congr 1
    field_simp
  have hle : |(num : ℚ) / den - n| ≤ 1 / 2 ↔ |(2 * num - 2 * (n * den) : ℤ)| ≤ den := by
    rw [hdist, div_le_iff₀ hpos, one_div, inv_mul_cancel_left₀ two_ne_zero]
    exact_mod_cast Iff.rfl
  have heq : |(num : ℚ) / den - n| = 1 / 2 ↔ |(2 * num - 2 * (n * den) : ℤ)| = den := by
    rw [hdist, div_eq_iff hpos.ne', one_div, inv_mul_cancel_left₀ two_ne_zero]
    exact_mod_cast Iff.rfl
  rw [IsNearest, hle, heq, Int.abs_eq_natAbs]
  omega

theorem nearestEven_cases (num den : ℕ) :
    nearestEven num den = num / den ∧
        (2 * (num % den) < den ∨ 2 * (num % den) = den ∧ num / den % 2 = 0) ∨
      nearestEven num den = num / den + 1 ∧
        (den < 2 * (num % den) ∨ 2 * (num % den) = den ∧ num / den % 2 ≠ 0) := by
  unfold nearestEven
  dsimp only
  split
  · omega
  · split
    · omega
    · split <;> omega

theorem isNearest_nearestEven (num : ℕ) {den : ℕ} (hden : 0 < den) :
    IsNearest (num / den) (nearestEven num den) := by
  have hsplit := Nat.div_add_mod' num den
  have hlt := Nat.mod_lt num hden
  have hsucc : (num / den + 1) * den = num / den * den + den := Nat.succ_mul _ _
  rw [isNearest_div_iff hden]
  rcases nearestEven_cases num den with ⟨hvalue, hcase⟩ | ⟨hvalue, hcase⟩
  · rw [hvalue]
    omega
  · rw [hvalue, hsucc]
    omega

theorem two_zpow_pos (e : ℤ) : (0 : ℚ) < 2 ^ e :=
  zpow_pos two_pos e

theorem two_zpow_le_iff {q : ℚ} (hq : 0 < q) (e : ℤ) : 2 ^ e ≤ q ↔ e ≤ Int.log 2 q :=
  Int.zpow_le_iff_le_log one_lt_two hq

theorem lt_two_zpow_iff {q : ℚ} (hq : 0 < q) (e : ℤ) : q < 2 ^ e ↔ Int.log 2 q < e :=
  Int.lt_zpow_iff_log_lt one_lt_two hq

theorem zpow_eq_div {b : ℚ} (hb : b ≠ 0) (k : ℤ) : b ^ k = b ^ k.toNat / b ^ (-k).toNat := by
  rw [← zpow_natCast, ← zpow_natCast, ← zpow_sub₀ hb]
  congr 1
  omega

theorem cast_scaled (num den : ℕ) (e : ℤ) :
    ((scaled num den e).1 : ℚ) / (scaled num den e).2 = num / den * 2 ^ (-e) := by
  simp only [scaled, Nat.pow_eq]
  push_cast
  rw [zpow_eq_div two_ne_zero, neg_neg, mul_div_mul_comm]

theorem scaled_snd_pos (num : ℕ) {den : ℕ} (hden : 0 < den) (e : ℤ) :
    0 < (scaled num den e).2 :=
  Nat.mul_pos hden (Nat.pow_pos two_pos)

theorem scaled_le_iff {num den : ℕ} (hden : 0 < den) (e : ℤ) :
    (scaled num den e).2 ≤ (scaled num den e).1 ↔ (2 : ℚ) ^ e ≤ num / den := by
  have hpos : (0 : ℚ) < (scaled num den e).2 := by exact_mod_cast scaled_snd_pos num hden e
  rw [← Nat.cast_le (α := ℚ), ← one_le_div hpos, cast_scaled, zpow_neg, ← div_eq_mul_inv,
    one_le_div (two_zpow_pos e)]

theorem floorLog2_eq_log {num den : ℕ} (hnum : 0 < num) (hden : 0 < den) :
    floorLog2 num den = Int.log 2 ((num : ℚ) / den) := by
  have hq : (0 : ℚ) < num / den := by positivity
  have hnumLow : (2 : ℚ) ^ (num.log2 : ℤ) ≤ num := by
    exact_mod_cast Nat.log2_self_le hnum.ne'
  have hnumHigh : (num : ℚ) < 2 ^ (num.log2 + 1 : ℤ) := by
    exact_mod_cast Nat.lt_log2_self
  have hdenLow : (2 : ℚ) ^ (den.log2 : ℤ) ≤ den := by
    exact_mod_cast Nat.log2_self_le hden.ne'
  have hdenHigh : (den : ℚ) < 2 ^ (den.log2 + 1 : ℤ) := by
    exact_mod_cast Nat.lt_log2_self
  have hlow : (2 : ℚ) ^ ((num.log2 : ℤ) - (den.log2 + 1)) ≤ num / den := by
    rw [zpow_sub₀ two_ne_zero]
    gcongr
  have hhigh : (num : ℚ) / den < 2 ^ ((num.log2 + 1 : ℤ) - den.log2) := by
    rw [zpow_sub₀ two_ne_zero]
    gcongr
  rw [two_zpow_le_iff hq] at hlow
  rw [lt_two_zpow_iff hq] at hhigh
  unfold floorLog2
  dsimp only
  split
  · next h =>
      rw [scaled_le_iff hden, two_zpow_le_iff hq] at h
      omega
  · next h =>
      rw [scaled_le_iff hden, two_zpow_le_iff hq] at h
      omega

namespace Format

/-- The exponent of the last place that a format keeps of a positive value. -/
def lastPlace (f : Format) (q : ℚ) : ℤ :=
  max f.minExponent (Int.log 2 q - (f.precision - 1))

/-- The multiple of the last place nearest to a value: a number of the format, unless the value is
past the greatest one. -/
def nearest (f : Format) (q : ℚ) : ℚ :=
  let e := f.lastPlace |q|
  let x := |q| * 2 ^ (-e)
  let v : ℚ := nearestEven x.num.natAbs x.den * 2 ^ e
  if q < 0 then -v else v

variable {f : Format} {q q' : ℚ} {n : ℕ}

theorem exists_nearest (f : Format) (hq : 0 ≤ q) :
    ∃ n : ℕ, IsNearest (q * 2 ^ (-f.lastPlace q)) n ∧ f.nearest q = n * 2 ^ f.lastPlace q := by
  have hx : 0 ≤ q * 2 ^ (-f.lastPlace q) := mul_nonneg hq (two_zpow_pos _).le
  have hround := isNearest_nearestEven (q * 2 ^ (-f.lastPlace q)).num.natAbs
    (Rat.den_pos (q * 2 ^ (-f.lastPlace q)))
  rw [Nat.cast_natAbs, abs_of_nonneg (Rat.num_nonneg.mpr hx), Rat.num_div_den] at hround
  refine ⟨_, hround, ?_⟩
  rw [nearest, if_neg (not_lt.mpr hq), abs_of_nonneg hq]

theorem nearest_eq (hq : 0 ≤ q) (h : IsNearest (q * 2 ^ (-f.lastPlace q)) n) :
    f.nearest q = n * 2 ^ f.lastPlace q := by
  obtain ⟨n', hn', hvalue⟩ := f.exists_nearest hq
  rw [hvalue, hn'.unique h]

theorem nearest_zero (f : Format) : f.nearest 0 = 0 := by
  have h : IsNearest (0 * 2 ^ (-f.lastPlace 0)) 0 := by
    rw [zero_mul]
    exact_mod_cast isNearest_natCast 0
  rw [nearest_eq le_rfl h, Nat.cast_zero, zero_mul]

theorem nearest_neg (f : Format) (q : ℚ) : f.nearest (-q) = -f.nearest q := by
  rcases lt_trichotomy q 0 with hq | rfl | hq
  · rw [nearest, nearest, abs_neg, if_neg (by linarith), if_pos hq, neg_neg]
  · rw [neg_zero, nearest_zero, neg_zero]
  · rw [nearest, nearest, abs_neg, if_pos (by linarith), if_neg (by linarith)]

theorem nearest_nonneg (f : Format) (hq : 0 ≤ q) : 0 ≤ f.nearest q := by
  obtain ⟨n, -, hvalue⟩ := f.exists_nearest hq
  rw [hvalue]
  exact mul_nonneg n.cast_nonneg (two_zpow_pos _).le

theorem abs_nearest (f : Format) (q : ℚ) : |f.nearest q| = f.nearest |q| := by
  rcases le_total 0 q with hq | hq
  · rw [abs_of_nonneg hq, abs_of_nonneg (f.nearest_nonneg hq)]
  · rw [abs_of_nonpos hq, ← abs_neg, ← nearest_neg,
      abs_of_nonneg (f.nearest_nonneg (neg_nonneg.mpr hq))]

theorem lastPlace_mono (f : Format) (hq : 0 < q) (hle : q ≤ q') :
    f.lastPlace q ≤ f.lastPlace q' := by
  have hlog : Int.log 2 q ≤ Int.log 2 q' := Int.log_mono_right hq hle
  unfold lastPlace
  omega

theorem lt_zpow_lastPlace (f : Format) (hq : 0 < q) :
    q < 2 ^ (f.lastPlace q + f.precision) := by
  rw [lt_two_zpow_iff hq, lastPlace]
  omega

theorem zpow_lastPlace_le (hq : 0 < q) (h : f.minExponent < f.lastPlace q) :
    2 ^ (f.lastPlace q + f.precision - 1) ≤ q := by
  rw [lastPlace] at h
  rw [two_zpow_le_iff hq, lastPlace]
  omega

/-- The last place is counted at most as often as the precision allows. -/
theorem le_of_isNearest_lastPlace (hq : 0 < q) (h : IsNearest (q * 2 ^ (-f.lastPlace q)) n) :
    n ≤ 2 ^ f.precision := by
  refine h.mono (isNearest_natCast _) ?_
  have hlt := f.lt_zpow_lastPlace hq
  rw [zpow_add₀ two_ne_zero, mul_comm, ← div_lt_iff₀ (two_zpow_pos _)] at hlt
  rw [zpow_neg, ← div_eq_mul_inv]
  exact_mod_cast hlt.le

theorem ge_of_isNearest_lastPlace (hp : 0 < f.precision) (hq : 0 < q)
    (hmin : f.minExponent < f.lastPlace q) (h : IsNearest (q * 2 ^ (-f.lastPlace q)) n) :
    2 ^ (f.precision - 1) ≤ n := by
  refine (isNearest_natCast _).mono h ?_
  have hle := zpow_lastPlace_le hq hmin
  rw [add_sub_assoc, zpow_add₀ two_ne_zero, mul_comm, ← le_div_iff₀ (two_zpow_pos _)] at hle
  rw [zpow_neg, ← div_eq_mul_inv]
  push_cast
  rwa [← zpow_natCast, Nat.cast_sub hp, Nat.cast_one]

/-- From one last place to the next, values cannot change their order: up to it no rounding
leads past the power of two where it begins. -/
theorem nearest_le_of_pos (hp : 0 < f.precision) (hq : 0 < q) (hle : q ≤ q') :
    f.nearest q ≤ f.nearest q' := by
  have hq' : 0 < q' := hq.trans_le hle
  obtain ⟨n, hn, hvalue⟩ := f.exists_nearest hq.le
  obtain ⟨n', hn', hvalue'⟩ := f.exists_nearest hq'.le
  rw [hvalue, hvalue']
  rcases (f.lastPlace_mono hq hle).lt_or_eq with hlt | heq
  · have hmin : f.minExponent < f.lastPlace q' :=
      (show f.minExponent ≤ f.lastPlace q from le_max_left _ _).trans_lt hlt
    have hupper : (n : ℚ) ≤ 2 ^ (f.precision : ℤ) := by
      exact_mod_cast le_of_isNearest_lastPlace hq hn
    have hlower : (2 : ℚ) ^ (f.precision - 1 : ℤ) ≤ n' := by
      have hpred : (f.precision - 1 : ℤ) = (f.precision - 1 : ℕ) := by omega
      rw [hpred]
      exact_mod_cast ge_of_isNearest_lastPlace hp hq' hmin hn'
    calc (n : ℚ) * 2 ^ f.lastPlace q
        ≤ 2 ^ (f.precision : ℤ) * 2 ^ f.lastPlace q := by gcongr
      _ = 2 ^ (f.lastPlace q + f.precision) := by rw [← zpow_add₀ two_ne_zero, add_comm]
      _ ≤ 2 ^ (f.lastPlace q' + (f.precision - 1)) :=
          zpow_le_zpow_right₀ one_le_two (by omega)
      _ = 2 ^ (f.precision - 1 : ℤ) * 2 ^ f.lastPlace q' := by
          rw [← zpow_add₀ two_ne_zero, add_comm]
      _ ≤ n' * 2 ^ f.lastPlace q' := by gcongr
  · rw [heq] at hn ⊢
    have hnn : n ≤ n' := hn.mono hn' (mul_le_mul_of_nonneg_right hle (two_zpow_pos _).le)
    gcongr

theorem nearest_mono (hp : 0 < f.precision) : Monotone f.nearest := by
  intro q q' hle
  rcases lt_trichotomy q 0 with hq | rfl | hq
  · rcases lt_or_ge q' 0 with hq' | hq'
    · have hneg := nearest_le_of_pos hp (neg_pos.mpr hq') (neg_le_neg hle)
      rwa [nearest_neg, nearest_neg, neg_le_neg_iff] at hneg
    · have hneg := f.nearest_nonneg (neg_pos.mpr hq).le
      rw [nearest_neg] at hneg
      linarith [f.nearest_nonneg hq']
  · rw [nearest_zero]
    exact f.nearest_nonneg hle
  · exact nearest_le_of_pos hp hq hle

/-- What the format has, it does not round. -/
theorem nearest_mul_zpow {e : ℤ} (hn : n < 2 ^ f.precision) (he : f.minExponent ≤ e) :
    f.nearest (n * 2 ^ e) = n * 2 ^ e := by
  rcases n.eq_zero_or_pos with rfl | hpos
  · rw [Nat.cast_zero, zero_mul, nearest_zero]
  · have hq : (0 : ℚ) < n * 2 ^ e := mul_pos (by exact_mod_cast hpos) (two_zpow_pos e)
    have hlt : (n : ℚ) * 2 ^ e < 2 ^ (e + f.precision) := by
      rw [add_comm, zpow_add₀ two_ne_zero]
      exact mul_lt_mul_of_pos_right (by exact_mod_cast hn) (two_zpow_pos e)
    have hplace : f.lastPlace (n * 2 ^ e) ≤ e := by
      rw [lt_two_zpow_iff hq] at hlt
      rw [lastPlace]
      omega
    obtain ⟨k, hk⟩ := Int.eq_ofNat_of_zero_le (sub_nonneg.mpr hplace)
    have hwhole : (n : ℚ) * 2 ^ e * 2 ^ (-f.lastPlace (n * 2 ^ e)) = (n * 2 ^ k : ℕ) := by
      rw [mul_assoc, ← zpow_add₀ two_ne_zero, ← sub_eq_add_neg, hk, Nat.cast_mul, Nat.cast_pow,
        zpow_natCast, Nat.cast_ofNat]
    rw [nearest_eq hq.le (hwhole ▸ isNearest_natCast _), ← hwhole, mul_assoc,
      ← zpow_add₀ two_ne_zero, neg_add_cancel, zpow_zero, mul_one]

theorem nearest_natCast (hp : 0 < f.precision) (hmin : f.minExponent ≤ 0)
    (hn : n ≤ 2 ^ f.precision) : f.nearest n = n := by
  rcases hn.lt_or_eq with hlt | rfl
  · have h := nearest_mul_zpow hlt hmin
    rwa [zpow_zero, mul_one] at h
  · have h := nearest_mul_zpow (f := f) (n := 1) (e := f.precision)
      (Nat.one_lt_two_pow hp.ne') (by omega)
    rw [Nat.cast_one, one_mul, zpow_natCast] at h
    exact_mod_cast h

theorem nearest_intCast (hp : 0 < f.precision) (hmin : f.minExponent ≤ 0) {k : ℤ}
    (hk : k.natAbs ≤ 2 ^ f.precision) : f.nearest k = k := by
  obtain ⟨n, rfl | rfl⟩ := k.eq_nat_or_neg
  · exact_mod_cast nearest_natCast hp hmin (by simpa using hk)
  · rw [Int.cast_neg, nearest_neg]
    exact_mod_cast congrArg Neg.neg (nearest_natCast hp hmin (by simpa using hk))

/-- A whole number that the precision reaches is told apart from all others. -/
theorem nearest_intCast_le_iff (hp : 0 < f.precision) (hmin : f.minExponent ≤ 0) {k : ℤ}
    (hk : k.natAbs < 2 ^ f.precision) (j : ℤ) :
    (f.nearest j ≤ f.nearest k ↔ j ≤ k) ∧ (f.nearest k ≤ f.nearest j ↔ k ≤ j) := by
  have hmono (a b : ℤ) (hle : a ≤ b) : f.nearest a ≤ f.nearest b :=
    nearest_mono hp (by exact_mod_cast hle)
  have hself := nearest_intCast hp hmin hk.le
  constructor
  · refine ⟨fun h => ?_, hmono j k⟩
    by_contra hlt
    have hnext : f.nearest (k + 1 : ℤ) = (k + 1 : ℤ) := nearest_intCast hp hmin (by omega)
    have hle := hmono (k + 1) j (by omega)
    rw [hnext] at hle
    push_cast at hle
    linarith
  · refine ⟨fun h => ?_, hmono k j⟩
    by_contra hlt
    have hprevious : f.nearest (k - 1 : ℤ) = (k - 1 : ℤ) := nearest_intCast hp hmin (by omega)
    have hle := hmono j (k - 1) (by omega)
    rw [hprevious] at hle
    push_cast at hle
    linarith

end Format

end RecordFilter.Number
