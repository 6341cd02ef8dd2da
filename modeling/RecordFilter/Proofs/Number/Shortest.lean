import RecordFilter.Number.Layout
import RecordFilter.Proofs.Number.Literals

/-!
Shortest digits read back. Whatever lies in the interval around a number rounds to that number, and
the search ends on a grid that is fine enough to have a point in the interval.
-/

namespace RecordFilter.Number

variable {f : Format} {s : Bool} {m num den c : ℕ} {e g : ℤ} {x : ℚ}

namespace Interval

/-- The values inside, in quarters of the last place. -/
def Holds (i : Interval) (x : ℚ) : Prop :=
  i.low ≤ x ∧ x ≤ i.high ∧ (x = i.low ∨ x = i.high → i.closed = true)

theorem covers_iff {i : Interval} (hden : 0 < den) :
    i.covers num den = true ↔ i.Holds (num / den) := by
  have hpos : (0 : ℚ) < den := by exact_mod_cast hden
  have hlow : i.low * den ≤ num ↔ (i.low : ℚ) ≤ num / den := by
    rw [le_div_iff₀ hpos]
    exact_mod_cast Iff.rfl
  have hhigh : num ≤ i.high * den ↔ (num : ℚ) / den ≤ i.high := by
    rw [div_le_iff₀ hpos]
    exact_mod_cast Iff.rfl
  have hlowStrict : i.low * den < num ↔ (i.low : ℚ) < num / den := by
    rw [lt_div_iff₀ hpos]
    exact_mod_cast Iff.rfl
  have hhighStrict : num < i.high * den ↔ (num : ℚ) / den < i.high := by
    rw [div_lt_iff₀ hpos]
    exact_mod_cast Iff.rfl
  unfold covers Holds
  split
  · next hclosed =>
      simp [hlow, hhigh, hclosed]
  · next hopen =>
      rw [Bool.and_eq_true, decide_eq_true_iff, decide_eq_true_iff, hlowStrict, hhighStrict]
      constructor
      · rintro ⟨hl, hh⟩
        exact ⟨hl.le, hh.le, fun hend => absurd hend (not_or.mpr ⟨hl.ne', hh.ne⟩)⟩
      · rintro ⟨hl, hh, hends⟩
        obtain ⟨hneLow, hneHigh⟩ := not_or.mp (mt hends hopen)
        exact ⟨lt_of_le_of_ne hl (Ne.symm hneLow), lt_of_le_of_ne hh hneHigh⟩

theorem low_of (f : Format) (e : ℤ) (hm : 0 < m) :
    ((of f m e).low : ℚ) =
      4 * m - if m = 2 ^ (f.precision - 1) ∧ f.minExponent < e then 1 else 2 := by
  have hfour : 2 ≤ 4 * m := by omega
  unfold of
  rw [Nat.pow_eq]
  split
  · rw [Nat.cast_sub (by omega)]
    push_cast
    rfl
  · rw [Nat.cast_sub hfour]
    push_cast
    rfl

theorem high_of (f : Format) (m : ℕ) (e : ℤ) : ((of f m e).high : ℚ) = 4 * m + 2 := by
  simp [of]

theorem le_of_holds (hm : 0 < m) (h : (of f m e).Holds x) : 4 * m - 2 ≤ x ∧ x ≤ 4 * m + 2 := by
  obtain ⟨hlow, hhigh, -⟩ := h
  rw [high_of] at hhigh
  refine ⟨le_trans ?_ hlow, hhigh⟩
  rw [low_of f e hm]
  split <;> linarith

theorem isNearest_of_holds (hm : 0 < m) (h : (of f m e).Holds (4 * x)) : IsNearest x m := by
  obtain ⟨hlow, hhigh⟩ := le_of_holds hm h
  have hle : |x - m| ≤ 1 / 2 := abs_le.mpr ⟨by linarith, by linarith⟩
  refine ⟨hle, fun htie => ?_⟩
  have hend : 4 * x = (of f m e).low ∨ 4 * x = (of f m e).high := by
    rw [high_of]
    rcases eq_or_eq_neg_of_abs_eq htie with habove | hbelow
    · exact .inr (by linarith)
    · refine .inl (le_antisymm ?_ h.1)
      rw [low_of f e hm]
      split <;> linarith
  exact beq_iff_eq.mp (h.2.2 hend)

theorem lt_two_zpow_add_iff {q : ℚ} (e k : ℤ) : q < 2 ^ (e + k) ↔ q * 2 ^ (-e) < 2 ^ k := by
  rw [zpow_add₀ two_ne_zero, zpow_neg, ← div_eq_mul_inv, div_lt_iff₀ (two_zpow_pos e), mul_comm]

section LastPlace

variable {q : ℚ}

theorem lastPlace_le_of_holds (h : f.Canonical m e) (hm : 0 < m) (hq : 0 < q)
    (hholds : (of f m e).Holds (4 * (q * 2 ^ (-e)))) : f.lastPlace q ≤ e := by
  obtain ⟨hlt, hmin, -, -⟩ := h
  have hsucc : (m : ℚ) + 1 ≤ 2 ^ f.precision := by exact_mod_cast hlt
  have hbelow : q < 2 ^ (e + f.precision) := by
    rw [lt_two_zpow_add_iff, zpow_natCast]
    linarith [(le_of_holds hm hholds).2]
  rw [lt_two_zpow_iff hq] at hbelow
  rw [Format.lastPlace]
  omega

/-- Only below a power of two does the last place change within the interval. -/
theorem eq_two_pow_of_lastPlace_lt (hf : f.Regular) (h : f.Canonical m e) (hm : 0 < m) (hq : 0 < q)
    (hholds : (of f m e).Holds (4 * (q * 2 ^ (-e)))) (hless : f.lastPlace q < e) :
    m = 2 ^ (f.precision - 1) ∧ q * 2 ^ (-e) < m := by
  have hp := hf.precision_pos
  have hleast : f.minExponent < e := (le_max_left _ _).trans_lt hless
  have hge : 2 ^ (f.precision - 1) ≤ m := h.2.2.2.resolve_left hleast.ne'
  have hupper : q * 2 ^ (-e) < 2 ^ (f.precision - 1) := by
    rw [← zpow_natCast, ← lt_two_zpow_add_iff, lt_two_zpow_iff hq]
    rw [Format.lastPlace] at hless
    omega
  have hlt : (m : ℚ) < 2 ^ (f.precision - 1) + 1 := by
    linarith [(le_of_holds hm hholds).1]
  have hpower : m = 2 ^ (f.precision - 1) :=
    le_antisymm (Nat.lt_succ_iff.mp (by exact_mod_cast hlt)) hge
  refine ⟨hpower, ?_⟩
  have hcast : (m : ℚ) = 2 ^ (f.precision - 1) := by exact_mod_cast hpower
  rwa [hcast]

/-- There the last place is half as large, and what lies in the interval is rounded up to the power
of two. -/
theorem isNearest_of_lastPlace_lt (hf : f.Regular) (h : f.Canonical m e) (hm : 0 < m) (hq : 0 < q)
    (hholds : (of f m e).Holds (4 * (q * 2 ^ (-e)))) (hless : f.lastPlace q < e) :
    f.lastPlace q = e - 1 ∧ IsNearest (q * 2 ^ (-(e - 1))) (2 ^ f.precision) := by
  have hp := hf.precision_pos
  have hone : (1 : ℚ) ≤ m := by exact_mod_cast hm
  have hleast : f.minExponent < e := (le_max_left _ _).trans_lt hless
  obtain ⟨hpower, hupper⟩ := eq_two_pow_of_lastPlace_lt hf h hm hq hholds hless
  have hlower : 4 * (m : ℚ) - 1 ≤ 4 * (q * 2 ^ (-e)) := by
    have hlow := hholds.1
    rwa [low_of f e hm, if_pos ⟨hpower, hleast⟩] at hlow
  have hdouble : (2 : ℚ) ^ f.precision = 2 * m := by
    rw [hpower, Nat.cast_pow, Nat.cast_ofNat, ← pow_succ', Nat.sub_add_cancel hp]
  constructor
  · have hbinade : ¬ q < 2 ^ (e + (f.precision - 2 : ℤ)) := by
      have hhalf : (2 : ℚ) ^ (f.precision - 2 : ℤ) = m / 2 := by
        rw [zpow_sub₀ two_ne_zero, zpow_natCast, hdouble]
        ring
      rw [lt_two_zpow_add_iff, hhalf, not_lt]
      linarith
    rw [lt_two_zpow_iff hq] at hbinade
    rw [Format.lastPlace] at hless ⊢
    omega
  · have hscale : q * 2 ^ (-(e - 1)) = 2 * (q * 2 ^ (-e)) := by
      rw [neg_sub, sub_eq_add_neg, zpow_add₀ two_ne_zero, zpow_one]
      ring
    have heven : 2 ^ f.precision % 2 = 0 := Nat.mod_eq_zero_of_dvd (dvd_pow_self 2 hp.ne')
    rw [hscale, IsNearest, Nat.cast_pow, Nat.cast_ofNat, hdouble]
    exact ⟨abs_le.mpr ⟨by linarith, by linarith⟩, fun _ => heven⟩

end LastPlace

end Interval

namespace Binary

theorem round_of_holds (hf : f.Regular) (h : f.Canonical m e) (hm : 0 < m) (hnum : 0 < num)
    (hden : 0 < den) (hholds : (Interval.of f m e).Holds (4 * (num / den * 2 ^ (-e)))) :
    (round s num den : Binary f) = finite s m e h := by
  have hq : (0 : ℚ) < num / den := by positivity
  have hlt : m < 2 ^ f.precision := h.1
  rcases (Interval.lastPlace_le_of_holds h hm hq hholds).eq_or_lt with hplace | hless
  · have hnearest := Interval.isNearest_of_holds hm hholds
    rw [← hplace] at hnearest
    rw [round_eq hnum hden hnearest, if_neg hlt.ne, hplace, ofParts_of_canonical h]
  · obtain ⟨hpower, -⟩ := Interval.eq_two_pow_of_lastPlace_lt hf h hm hq hholds hless
    obtain ⟨hplace, hnearest⟩ := Interval.isNearest_of_lastPlace_lt hf h hm hq hholds hless
    rw [← hplace] at hnearest
    rw [round_eq hnum hden hnearest, if_pos rfl, hplace, sub_add_cancel, ← hpower,
      ofParts_of_canonical h]

/-- The same for a quotient of known value, counted in quarters of the last place. -/
theorem round_of_value (hf : f.Regular) (h : f.Canonical m e) (hm : 0 < m) (hnum : 0 < num)
    (hden : 0 < den) (hvalue : (num : ℚ) / den = x)
    (hholds : (Interval.of f m e).Holds (x * 2 ^ (2 - e))) :
    (round s num den : Binary f) = finite s m e h := by
  have hquarter : 4 * (x * 2 ^ (-e)) = x * 2 ^ (2 - e) := by
    rw [sub_eq_add_neg, zpow_add₀ two_ne_zero]
    ring
  apply round_of_holds hf h hm hnum hden
  rwa [hvalue, hquarter]

end Binary

section Grid

variable {t : Tie} {i : Interval}

theorem cast_grid (c : ℕ) (e g : ℤ) :
    ((c * (Nat.pow 10 g.toNat * Nat.pow 2 (2 - e).toNat) : ℕ) : ℚ) /
        (Nat.pow 10 (-g).toNat * Nat.pow 2 (e - 2).toNat : ℕ) = c * 10 ^ g * 2 ^ (2 - e) := by
  rw [zpow_eq_div (show (10 : ℚ) ≠ 0 by norm_num) g, zpow_eq_div two_ne_zero (2 - e), neg_sub]
  simp only [Nat.pow_eq]
  push_cast
  rw [mul_assoc, ← mul_div_mul_comm, mul_div_assoc]

theorem unit_pos (g e : ℤ) : 0 < Nat.pow 10 (-g).toNat * Nat.pow 2 (e - 2).toNat :=
  Nat.mul_pos (Nat.pow_pos (by decide)) (Nat.pow_pos two_pos)

theorem holds_of_gridPoint? (h : gridPoint? t i e g = some c) :
    i.Holds (c * 10 ^ g * 2 ^ (2 - e)) := by
  rw [← cast_grid, ← Interval.covers_iff (unit_pos g e)]
  unfold gridPoint? at h
  dsimp only at h
  split at h
  · next hbelow habove =>
      split at h
      · cases h
        exact habove
      · cases h
        exact hbelow
  · next hbelow _ =>
      cases h
      exact hbelow
  · next _ habove =>
      cases h
      exact habove
  · cases h

/-- A grid at least as fine as a quarter of the last place has a point in the interval: the one
below the number. -/
theorem exists_gridPoint? (t : Tie) (hlow : i.low < i.mid) (hhigh : i.mid < i.high)
    (hfine : (10 : ℚ) ^ g ≤ 2 ^ (e - 2)) : ∃ c, gridPoint? t i e g = some c := by
  have hstep : Nat.pow 10 g.toNat * Nat.pow 2 (2 - e).toNat ≤
      Nat.pow 10 (-g).toNat * Nat.pow 2 (e - 2).toNat := by
    have hratio := cast_grid 1 e g
    rw [Nat.one_mul, Nat.cast_one, one_mul] at hratio
    have hle : (10 : ℚ) ^ g * 2 ^ (2 - e) ≤ 1 := by
      rwa [← neg_sub, zpow_neg, ← div_eq_mul_inv, div_le_one (two_zpow_pos _)]
    rw [← hratio, div_le_one (by exact_mod_cast unit_pos g e)] at hle
    exact_mod_cast hle
  have hstepPos : 0 < Nat.pow 10 g.toNat * Nat.pow 2 (2 - e).toNat :=
    Nat.mul_pos (Nat.pow_pos (by decide)) (Nat.pow_pos two_pos)
  have hunit := unit_pos g e
  unfold gridPoint?
  dsimp only
  generalize Nat.pow 10 g.toNat * Nat.pow 2 (2 - e).toNat = step at hstep hstepPos ⊢
  generalize Nat.pow 10 (-g).toNat * Nat.pow 2 (e - 2).toNat = unit at hstep hunit ⊢
  have hbelow : i.covers (i.mid * unit / step * step) unit = true := by
    have hle : i.mid * unit / step * step ≤ i.mid * unit := Nat.div_mul_le_self _ _
    have hlt : i.mid * unit < i.mid * unit / step * step + step := Nat.lt_div_mul_add hstepPos
    have hlowUnit : (i.low + 1) * unit ≤ i.mid * unit := Nat.mul_le_mul_right unit hlow
    have hhighUnit : (i.mid + 1) * unit ≤ i.high * unit := Nat.mul_le_mul_right unit hhigh
    rw [Nat.succ_mul] at hlowUnit hhighUnit
    unfold Interval.covers
    split <;> simp only [Bool.and_eq_true, decide_eq_true_eq] <;> omega
  rw [hbelow]
  split
  · split
    · exact ⟨_, rfl⟩
    · exact ⟨_, rfl⟩
  · exact ⟨_, rfl⟩
  · exact ⟨_, rfl⟩
  · next h _ => cases h

theorem holds_searchGrid {n : ℕ} (h : ∃ c, gridPoint? t i e (g - n) = some c) :
    i.Holds ((searchGrid t i e n g).1 * 10 ^ (searchGrid t i e n g).2 * 2 ^ (2 - e)) := by
  induction n generalizing g with
  | zero =>
      obtain ⟨c, hc⟩ := h
      rw [Nat.cast_zero, sub_zero] at hc
      rw [searchGrid, hc]
      exact holds_of_gridPoint? hc
  | succ n ih =>
      rw [searchGrid]
      split
      · next c hc => exact holds_of_gridPoint? hc
      · apply ih
        rwa [sub_sub, add_comm, ← Nat.cast_succ]

end Grid

/-- Enough decimal digits for the precision, and exponents in whose range 30103 / 100000 still
passes for the logarithm of two. -/
structure Format.Decimal (f : Format) : Prop where
  precision_le : 30103 * (f.precision : ℤ) ≤ 100000 * (f.decimalDigits - 1)
  minExponent_ge : -1100 ≤ f.minExponent
  maxExponent_le : f.maxExponent ≤ 1100

theorem decimal_single : Format.single.Decimal := by
  constructor <;> decide

theorem decimal_double : Format.double.Decimal := by
  constructor <;> decide

theorem ten_zpow_finest_le (hf : f.Decimal) (h : f.Canonical m e) (hm : 0 < m) :
    (10 : ℚ) ^ (coarsestGrid m e - (f.decimalDigits + 2 : ℕ)) ≤ 2 ^ (e - 2) := by
  obtain ⟨hdigits, hmin, hmax⟩ := hf
  have hlog : m.log2 < f.precision := (Nat.log2_lt hm.ne').mpr h.1
  obtain ⟨-, hlow, hhigh, -⟩ := h
  unfold coarsestGrid
  apply ten_zpow_le_two_zpow
  · omega
  · omega

theorem holds_shortest (hf : f.Decimal) (t : Tie) (h : f.Canonical m e) (hm : 0 < m) :
    (Interval.of f m e).Holds
      ((shortest f t m e).1 * 10 ^ (shortest f t m e).2 * 2 ^ (2 - e)) := by
  apply holds_searchGrid
  apply exists_gridPoint? t
  · unfold Interval.of
    dsimp only
    split <;> omega
  · exact Nat.lt_add_of_pos_right two_pos
  · exact ten_zpow_finest_le hf h hm

end RecordFilter.Number
