import RecordFilter.Proofs.Number.Rounding

/-!
The exact values of binary numbers. Rounded quotients have the nearest values, and numbers compare
as their values do.
-/

namespace RecordFilter.Number

/-- The bounds between which quotients of moderate size are neither lost nor overflow. -/
structure Format.Regular (f : Format) : Prop where
  precision_pos : 0 < f.precision
  minExponent_nonpos : f.minExponent ≤ 0
  le_maxExponent : 64 ≤ f.maxExponent

theorem regular_single : Format.single.Regular := by
  constructor <;> decide

theorem regular_double : Format.double.Regular := by
  constructor <;> decide

def withSign (negative : Bool) (q : ℚ) : ℚ :=
  if negative then -q else q

theorem abs_withSign (negative : Bool) (q : ℚ) : |withSign negative q| = |q| := by
  cases negative
  · rfl
  · exact abs_neg q

/-- The first power of two past all numbers of a format. -/
def Format.limit (f : Format) : ℚ :=
  2 ^ (f.maxExponent + f.precision)

theorem Format.limit_pos (f : Format) : 0 < f.limit :=
  two_zpow_pos _

theorem Format.Regular.nearest_two_zpow {f : Format} (hf : f.Regular) {e : ℤ} (he : 0 ≤ e) :
    f.nearest (2 ^ e) = 2 ^ e := by
  have hmin := hf.minExponent_nonpos
  have hone : 1 < 2 ^ f.precision := Nat.one_lt_two_pow hf.precision_pos.ne'
  have hself := Format.nearest_mul_zpow hone (hmin.trans he)
  rwa [Nat.cast_one, one_mul] at hself

theorem Format.Regular.nearest_limit {f : Format} (hf : f.Regular) :
    f.nearest f.limit = f.limit := by
  have hmax := hf.le_maxExponent
  exact hf.nearest_two_zpow (by omega)

theorem Format.Regular.abs_lt_limit {f : Format} (hf : f.Regular) {q : ℚ}
    (h : |f.nearest q| < f.limit) : |q| < f.limit := by
  by_contra hpast
  have hmono := Format.nearest_mono hf.precision_pos (not_lt.mp hpast)
  rw [hf.nearest_limit, ← f.abs_nearest] at hmono
  exact absurd h (not_lt.mpr hmono)

/-- No rounding leads past the numbers of a format from below half of its limit. -/
theorem Format.Regular.abs_nearest_lt_limit {f : Format} (hf : f.Regular) {q : ℚ} {e : ℤ}
    (hq : |q| ≤ 2 ^ e) (he : e < f.maxExponent + f.precision) : |f.nearest q| < f.limit := by
  have hmax := hf.le_maxExponent
  have hle : (2 : ℚ) ^ e ≤ 2 ^ max e 0 := zpow_le_zpow_right₀ one_le_two (le_max_left e 0)
  calc |f.nearest q| = f.nearest |q| := f.abs_nearest q
    _ ≤ f.nearest (2 ^ max e 0) := Format.nearest_mono hf.precision_pos (hq.trans hle)
    _ = 2 ^ max e 0 := hf.nearest_two_zpow (le_max_right e 0)
    _ < f.limit := zpow_lt_zpow_right₀ one_lt_two (by omega)

/-- Less than half of the least positive number is nearest to zero. -/
theorem Format.Regular.nearest_eq_zero {f : Format} (hf : f.Regular) {q : ℚ} (hq : 0 < q)
    (hlt : q < 2 ^ (f.minExponent - 1)) : f.nearest q = 0 := by
  have hp := hf.precision_pos
  have hplace : f.lastPlace q = f.minExponent := by
    rw [lt_two_zpow_iff hq] at hlt
    rw [Format.lastPlace]
    omega
  have hhalf : q * 2 ^ (-f.minExponent) < 1 / 2 := by
    rw [zpow_sub₀ two_ne_zero, zpow_one, lt_div_iff₀ two_pos] at hlt
    rw [zpow_neg, ← div_eq_mul_inv, div_lt_iff₀ (two_zpow_pos _)]
    linarith
  have hnearest : IsNearest (q * 2 ^ (-f.lastPlace q)) 0 := by
    have hpos : 0 < q * 2 ^ (-f.minExponent) := mul_pos hq (two_zpow_pos _)
    rw [hplace, IsNearest, Nat.cast_zero, sub_zero, abs_of_pos hpos]
    exact ⟨hhalf.le, fun _ => rfl⟩
  rw [Format.nearest_eq hq.le hnearest, Nat.cast_zero, zero_mul]

/-- Pairs of a significand and an exponent are only past the numbers of a format if they are past
its limit. -/
theorem Format.Regular.mul_zpow_lt_limit_iff {f : Format} (hf : f.Regular) {m : ℕ} {e : ℤ}
    (hm : m < 2 ^ f.precision) (hfull : e = f.minExponent ∨ 2 ^ (f.precision - 1) ≤ m) :
    (m : ℚ) * 2 ^ e < f.limit ↔ e ≤ f.maxExponent := by
  have hp := hf.precision_pos
  have hmin := hf.minExponent_nonpos
  have hmax := hf.le_maxExponent
  constructor
  · intro hlt
    by_contra hpast
    have hge : (2 : ℚ) ^ (f.precision - 1 : ℕ) ≤ m := by
      exact_mod_cast hfull.resolve_left (by omega)
    have hle : f.limit ≤ m * 2 ^ e := by
      calc f.limit = 2 ^ (f.precision - 1 : ℕ) * 2 ^ (f.maxExponent + 1) := by
            rw [Format.limit, ← zpow_natCast, ← zpow_add₀ two_ne_zero]
            congr 1
            omega
        _ ≤ m * 2 ^ e := by
            gcongr
            · exact one_le_two
            · omega
    exact absurd hlt (not_lt.mpr hle)
  · intro hle
    have hcast : (m : ℚ) < 2 ^ f.precision := by exact_mod_cast hm
    calc (m : ℚ) * 2 ^ e < 2 ^ f.precision * 2 ^ e := mul_lt_mul_of_pos_right hcast (two_zpow_pos e)
      _ ≤ 2 ^ f.precision * 2 ^ f.maxExponent := by
          gcongr
          exact one_le_two
      _ = f.limit := by
          rw [Format.limit, ← zpow_natCast, ← zpow_add₀ two_ne_zero, add_comm]

theorem Format.Regular.natAbs_lt {f : Format} (hf : f.Regular) {k : ℤ}
    (h : |f.nearest k| < 2 ^ f.precision) : k.natAbs < 2 ^ f.precision := by
  have hnat (n : ℕ) (hn : |f.nearest n| < 2 ^ f.precision) : n < 2 ^ f.precision := by
    by_contra hle
    have hmono : f.nearest (2 ^ f.precision : ℕ) ≤ f.nearest n :=
      Format.nearest_mono hf.precision_pos (by exact_mod_cast not_lt.mp hle)
    rw [Format.nearest_natCast hf.precision_pos hf.minExponent_nonpos le_rfl] at hmono
    push_cast at hmono
    linarith [(abs_lt.mp hn).2]
  obtain ⟨n, rfl | rfl⟩ := k.eq_nat_or_neg
  · exact hnat n (by exact_mod_cast h)
  · rw [Int.cast_neg, Format.nearest_neg, abs_neg] at h
    rw [Int.natAbs_neg]
    exact hnat n (by exact_mod_cast h)

theorem Format.Regular.abs_withSign_lt_limit {f : Format} (hf : f.Regular) (negative : Bool) {m : ℕ}
    {e : ℤ} (h : f.Canonical m e) : |withSign negative (m * 2 ^ e)| < f.limit := by
  rw [abs_withSign, abs_of_nonneg (by positivity), hf.mul_zpow_lt_limit_iff h.1 h.2.2.2]
  exact h.2.2.1

namespace Binary

variable {f : Format} {s : Bool} {num den m n : ℕ} {e : ℤ}

/-- The value of a finite number. -/
def value? : Binary f → Option ℚ
  | finite s m e _ => some (withSign s (m * 2 ^ e))
  | _ => none

theorem ofParts_of_canonical (h : f.Canonical m e) : ofParts s m e = finite s m e h :=
  dif_pos h

/-- Zero has the least exponent only. -/
theorem zero_eq (h : f.Canonical 0 e) : zero s = finite s 0 e h := by
  have hleast : e = f.minExponent :=
    h.2.2.2.resolve_right (Nat.not_le.mpr (Nat.pow_pos two_pos))
  subst hleast
  rw [zero, ofParts_of_canonical h]

theorem ofParts_cases (s : Bool) (m : ℕ) (e : ℤ) :
    (ofParts s m e : Binary f) = infinite s ∨
      ∃ n d h, (ofParts s m e : Binary f) = finite s n d h := by
  unfold ofParts
  split
  · next h => exact .inr ⟨m, e, h, rfl⟩
  · exact .inl rfl

/-- Rounding keeps the sign and never gives NaN. -/
theorem round_cases (s : Bool) (num den : ℕ) :
    (round s num den : Binary f) = infinite s ∨
      ∃ n d h, (round s num den : Binary f) = finite s n d h := by
  unfold round
  split
  · exact ofParts_cases _ _ _
  · dsimp only
    split <;> exact ofParts_cases _ _ _

theorem round_eq (hnum : 0 < num) (hden : 0 < den)
    (h : IsNearest ((num : ℚ) / den * 2 ^ (-f.lastPlace (num / den))) m) :
    (round s num den : Binary f) =
      if m = 2 ^ f.precision then ofParts s (2 ^ (f.precision - 1)) (f.lastPlace (num / den) + 1)
      else ofParts s m (f.lastPlace (num / den)) := by
  have hplace : max f.minExponent (floorLog2 num den - (f.precision - 1)) =
      f.lastPlace (num / den) := by
    rw [floorLog2_eq_log hnum hden, Format.lastPlace]
  rw [← cast_scaled] at h
  have hm := (isNearest_nearestEven _ (scaled_snd_pos num hden _)).unique h
  rw [round, if_neg hnum.ne']
  simp only [hplace, hm, Nat.pow_eq]

theorem value?_zero (hf : f.Regular) : (zero s : Binary f).value? = some 0 := by
  have hmin := hf.minExponent_nonpos
  have hmax := hf.le_maxExponent
  have hcanonical : f.Canonical 0 f.minExponent :=
    ⟨Nat.pow_pos two_pos, le_rfl, by omega, .inl rfl⟩
  rw [zero, ofParts_of_canonical hcanonical, value?]
  cases s <;> simp [withSign]

theorem value?_ofParts (hf : f.Regular) (hm : m < 2 ^ f.precision) (he : f.minExponent ≤ e)
    (hfull : e = f.minExponent ∨ 2 ^ (f.precision - 1) ≤ m) :
    (ofParts s m e : Binary f).value? =
      if (m : ℚ) * 2 ^ e < f.limit then some (withSign s (m * 2 ^ e)) else none := by
  rw [ofParts]
  split
  · next h => rw [if_pos ((hf.mul_zpow_lt_limit_iff hm hfull).mpr h.2.2.1), value?]
  · next h =>
      have hpast : ¬(m : ℚ) * 2 ^ e < f.limit := by
        rw [hf.mul_zpow_lt_limit_iff hm hfull]
        exact fun hle => h ⟨hm, he, hle, hfull⟩
      rw [if_neg hpast]
      rfl

/-- The value of a rounded quotient is the nearest one, unless this is past all numbers of the
format. -/
theorem value?_round (hf : f.Regular) (s : Bool) (num : ℕ) (hden : 0 < den) :
    (round s num den : Binary f).value? =
      if f.nearest (num / den) < f.limit then some (withSign s (f.nearest (num / den)))
      else none := by
  have hmin : f.minExponent ≤ f.lastPlace ((num : ℚ) / den) := le_max_left _ _
  have hp := hf.precision_pos
  rcases num.eq_zero_or_pos with rfl | hnum
  · rw [round, if_pos rfl, value?_zero hf, Nat.cast_zero, zero_div, Format.nearest_zero,
      if_pos f.limit_pos]
    cases s <;> simp [withSign]
  · have hq : (0 : ℚ) < num / den := by positivity
    obtain ⟨m, hm, hvalue⟩ := f.exists_nearest hq.le
    rw [round_eq hnum hden hm, hvalue]
    split
    · next hcarry =>
        have hsame : ((2 ^ (f.precision - 1) : ℕ) : ℚ) * 2 ^ (f.lastPlace ((num : ℚ) / den) + 1) =
            m * 2 ^ f.lastPlace ((num : ℚ) / den) := by
          rw [hcarry, zpow_add_one₀ two_ne_zero, ← Nat.sub_add_cancel hp, Nat.add_sub_cancel,
            pow_succ]
          push_cast
          ring
        rw [value?_ofParts hf (Nat.pow_lt_pow_right one_lt_two (by omega)) (by omega) (.inr le_rfl),
          hsame]
    · next hcarry =>
        have hlt : m < 2 ^ f.precision :=
          lt_of_le_of_ne (Format.le_of_isNearest_lastPlace hq hm) hcarry
        refine value?_ofParts hf hlt hmin ?_
        rcases hmin.eq_or_lt with heq | hlt
        · exact .inl heq.symm
        · exact .inr (Format.ge_of_isNearest_lastPlace hp hq hlt hm)

theorem cast_units (he : f.minExponent ≤ e) :
    (units f s m e : ℚ) = withSign s (m * 2 ^ e) * 2 ^ (-f.minExponent) := by
  have hpow : (2 : ℚ) ^ (e - f.minExponent).toNat = 2 ^ e * 2 ^ (-f.minExponent) := by
    rw [← zpow_natCast, ← zpow_add₀ two_ne_zero]
    congr 1
    omega
  unfold units withSign
  cases s <;> push_cast [Nat.pow_eq] <;> rw [hpow] <;> simp [mul_assoc]

theorem compare_eq_of_scaled {u v : ℤ} {a b c : ℚ} (hc : 0 < c) (hu : (u : ℚ) = a * c)
    (hv : (v : ℚ) = b * c) : compare u v = compare a b := by
  have hlt : u < v ↔ a < b := by
    rw [← Int.cast_lt (R := ℚ), hu, hv, mul_lt_mul_iff_left₀ hc]
  have heq : u = v ↔ a = b := by
    rw [← Int.cast_inj (α := ℚ), hu, hv, mul_left_inj' hc.ne']
  rcases lt_trichotomy a b with h | h | h
  · rw [compare_lt_iff_lt.mpr h, compare_lt_iff_lt.mpr (hlt.mpr h)]
  · rw [compare_eq_iff_eq.mpr h, compare_eq_iff_eq.mpr (heq.mpr h)]
  · have hgt : v < u := by
      rw [← not_le, le_iff_lt_or_eq, hlt, heq]
      exact not_or.mpr ⟨h.not_gt, h.ne'⟩
    rw [compare_gt_iff_gt.mpr h, compare_gt_iff_gt.mpr hgt]

variable {x y : Binary f} {a b : ℚ}

theorem compare?_eq (hx : x.value? = some a) (hy : y.value? = some b) :
    x.compare? y = some (compare a b) := by
  cases x <;> cases hx
  cases y <;> cases hy
  next s m e hcanonical t n d hcanonical' =>
    rw [compare?, compare_eq_of_scaled (two_zpow_pos _) (cast_units hcanonical.2.1)
      (cast_units hcanonical'.2.1)]

theorem compare?_eq_eq_iff (hx : x.value? = some a) :
    x.compare? y = some .eq ↔ y.value? = some a := by
  cases hy : y.value? with
  | some b => rw [compare?_eq hx hy, Option.some_inj, compare_eq_iff_eq, Option.some_inj, eq_comm]
  | none =>
      cases x <;> cases hx
      cases y with
      | nan => simp [compare?]
      | infinite t => cases t <;> simp [compare?]
      | finite => cases hy

theorem compare?_infinite_eq_eq_iff : (infinite s).compare? y = some .eq ↔ y = infinite s := by
  cases y with
  | nan => simp [compare?]
  | infinite t => cases s <;> cases t <;> simp [compare?]
  | finite => cases s <;> simp [compare?]

theorem compare?_swap (x y : Binary f) :
    y.compare? x = (x.compare? y).map Ordering.swap := by
  cases x <;> cases y
  all_goals simp only [compare?, Option.map_some, Option.map_none, Option.some_inj]
  · next a b => cases a <;> cases b <;> rfl
  · next a _ _ _ _ => cases a <;> rfl
  · next b => cases b <;> rfl
  · exact (Int.compare_swap _ _).symm

theorem sameValue_comm (x y : Binary f) : x.sameValue y = y.sameValue x := by
  rw [sameValue, sameValue, compare?_swap x y]
  cases x.compare? y with
  | none => rfl
  | some o => cases o <;> rfl

theorem exists_compare? (hx : x.isNaN = false) (hy : y.isNaN = false) :
    ∃ o, x.compare? y = some o := by
  cases x with
  | nan => cases hx
  | infinite a =>
      cases y with
      | nan => cases hy
      | infinite b => exact ⟨_, rfl⟩
      | finite => exact ⟨_, rfl⟩
  | finite =>
      cases y with
      | nan => cases hy
      | infinite b => exact ⟨_, rfl⟩
      | finite => exact ⟨_, rfl⟩

theorem cast_ratio (m : ℕ) (e : ℤ) : ((ratio m e).1 : ℚ) / (ratio m e).2 = m * 2 ^ e := by
  rw [ratio, cast_scaled, neg_neg, Nat.cast_one, div_one]

theorem ratio_snd_pos (m : ℕ) (e : ℤ) : 0 < (ratio m e).2 :=
  scaled_snd_pos m one_pos (-e)

theorem toInt?_eq_some_iff {n : ℤ} : x.toInt? = some n ↔ x.value? = some (n : ℚ) := by
  cases x with
  | nan => simp [toInt?, value?]
  | infinite s => simp [toInt?, value?]
  | finite s m e h =>
      have hden := ratio_snd_pos m e
      rw [value?, Option.some_inj, ← cast_ratio, toInt?]
      simp only
      split
      · next hmod =>
          rw [← Nat.cast_div (Nat.dvd_of_mod_eq_zero hmod) (by exact_mod_cast hden.ne')]
          generalize (ratio m e).1 / (ratio m e).2 = k
          cases s
          · rw [withSign, if_neg (by decide), if_neg (by decide), Option.some_inj]
            exact_mod_cast Iff.rfl
          · rw [withSign, if_pos rfl, if_pos rfl, Option.some_inj]
            exact_mod_cast Iff.rfl
      · next hmod =>
          refine iff_of_false (by simp) ?_
          intro hvalue
          apply hmod
          have habs : ((ratio m e).1 : ℚ) / (ratio m e).2 = n.natAbs := by
            rw [Nat.cast_natAbs, Int.cast_abs, ← hvalue, abs_withSign,
              abs_of_nonneg (by positivity)]
          rw [div_eq_iff (by exact_mod_cast hden.ne')] at habs
          have hproduct : (ratio m e).1 = n.natAbs * (ratio m e).2 := by
            exact_mod_cast habs
          rw [hproduct, Nat.mul_mod_left]

end Binary

end RecordFilter.Number
