import RecordFilter.Proofs.Number.Layout

/-!
Products and quotients of numbers whose values are known. They are rounded once, by their exact
value alone, so that a rounded quotient does not depend on how its number is reached.
-/

namespace RecordFilter.Number

variable {f : Format} {s : Bool} {m num den num' den' n : ℕ} {e : ℤ} {p q : ℚ}

theorem Interval.holds_mid (f : Format) (hm : 0 < m) (e : ℤ) :
    (Interval.of f m e).Holds (4 * m) := by
  rw [Holds, low_of f e hm, high_of]
  refine ⟨?_, by linarith, ?_⟩
  · split <;> linarith
  · rintro (h | h)
    · split at h <;> linarith
    · linarith

theorem Interval.pos_of_holds {x : ℚ} (hm : 0 < m) (h : (Interval.of f m e).Holds x) : 0 < x := by
  have hlow := (Interval.le_of_holds hm h).1
  have hone : (1 : ℚ) ≤ m := by exact_mod_cast hm
  linarith

namespace Binary

variable {x y : Binary f}

theorem round_congr (hden : 0 < den) (hden' : 0 < den') (h : (num : ℚ) / den = num' / den') :
    (round s num den : Binary f) = round s num' den' := by
  have hcast : (den : ℚ) ≠ 0 := by exact_mod_cast hden.ne'
  have hcast' : (den' : ℚ) ≠ 0 := by exact_mod_cast hden'.ne'
  rcases num.eq_zero_or_pos with rfl | hnum
  · rw [Nat.cast_zero, zero_div, eq_comm, div_eq_zero_iff, or_iff_left hcast',
      Nat.cast_eq_zero] at h
    rw [h, round, round, if_pos rfl, if_pos rfl]
  · have hnum' : 0 < num' := by
      refine Nat.pos_of_ne_zero ?_
      rintro rfl
      rw [Nat.cast_zero, zero_div, div_eq_zero_iff, or_iff_left hcast, Nat.cast_eq_zero] at h
      omega
    have hpos : (0 : ℚ) < num / den := by positivity
    obtain ⟨m, hm, -⟩ := f.exists_nearest hpos.le
    rw [round_eq hnum hden hm, round_eq hnum' hden' (h ▸ hm), h]

theorem negate_ofParts (m : ℕ) (e : ℤ) :
    (ofParts false m e : Binary f).negate = ofParts true m e := by
  unfold ofParts
  split <;> rfl

theorem negate_round (num den : ℕ) :
    (round false num den : Binary f).negate = round true num den := by
  unfold round
  split
  · exact negate_ofParts 0 _
  · dsimp only
    split <;> exact negate_ofParts _ _

theorem isFinite_round (hf : f.Regular) (s : Bool) (hden : 0 < den) (h : (num : ℚ) / den ≤ 2 ^ e)
    (he : e < f.maxExponent + f.precision) : (round s num den : Binary f).isFinite = true := by
  have hbelow : f.nearest (num / den) < f.limit := by
    refine (le_abs_self _).trans_lt (hf.abs_nearest_lt_limit (e := e) ?_ he)
    rwa [abs_of_nonneg (by positivity)]
  have hvalue := value?_round hf s num hden
  rw [if_pos hbelow] at hvalue
  rcases round_cases (f := f) s num den with hround | ⟨m, d, hm, hround⟩
  · rw [hround] at hvalue
    cases hvalue
  · rw [hround]
    rfl

/-- A number converted to its own format stays as it is. -/
theorem convert_self (hf : f.Regular) (x : Binary f) : (x.convert : Binary f) = x := by
  cases x with
  | nan => rfl
  | infinite s => rfl
  | finite s m e h =>
      rw [convert]
      rcases m.eq_zero_or_pos with rfl | hm
      · have hzero : (ratio 0 e).1 = 0 := Nat.zero_mul _
        rw [round, if_pos hzero, zero_eq h]
      · have hvalue : ((ratio m e).1 : ℚ) / (ratio m e).2 * 2 ^ (-e) = m := by
          rw [cast_ratio, mul_assoc, ← zpow_add₀ two_ne_zero, add_neg_cancel, zpow_zero, mul_one]
        have hnum : 0 < (ratio m e).1 := Nat.mul_pos hm (Nat.pow_pos two_pos)
        apply round_of_holds hf h hm hnum (ratio_snd_pos m e)
        rw [hvalue]
        exact Interval.holds_mid f hm e

/-- A number has one significand and one exponent. -/
theorem finite_eq_of_value (hf : f.Regular) {d : ℤ} (hm : f.Canonical m e) (hn : f.Canonical n d)
    (h : (m : ℚ) * 2 ^ e = n * 2 ^ d) : (finite s m e hm : Binary f) = finite s n d hn := by
  rw [← convert_self hf (finite s m e hm), ← convert_self hf (finite s n d hn), convert, convert]
  apply round_congr (ratio_snd_pos m e) (ratio_snd_pos n d)
  rw [cast_ratio, cast_ratio, h]

theorem round_eq_of_nearest (hf : f.Regular) (s : Bool) (hden : 0 < den) (hm : f.Canonical m e)
    (h : f.nearest (num / den) = m * 2 ^ e) :
    (round s num den : Binary f) = finite s m e hm := by
  have hbelow : (m : ℚ) * 2 ^ e < f.limit := (hf.mul_zpow_lt_limit_iff hm.1 hm.2.2.2).mpr hm.2.2.1
  have hvalue := value?_round hf s num hden
  rw [h, if_pos hbelow] at hvalue
  rcases round_cases (f := f) s num den with hround | ⟨n, d, hn, hround⟩
  · rw [hround] at hvalue
    cases hvalue
  · rw [hround] at hvalue ⊢
    refine finite_eq_of_value hf hn hm ?_
    have hsame := congrArg abs (Option.some_inj.mp hvalue)
    rwa [abs_withSign, abs_withSign, abs_of_nonneg (by positivity),
      abs_of_nonneg (by positivity)] at hsame

theorem exists_finite (hx : x.value? = some p) (hp : 0 < p) :
    ∃ m e h, x = finite false m e h ∧ 0 < m ∧ p = m * 2 ^ e := by
  cases x with
  | nan => cases hx
  | infinite s => cases hx
  | finite s m e h =>
      rw [value?, Option.some_inj] at hx
      have hvalue : (0 : ℚ) ≤ m * 2 ^ e := by positivity
      cases s with
      | true =>
          rw [withSign, if_pos rfl] at hx
          linarith
      | false =>
          rw [withSign, if_neg Bool.false_ne_true] at hx
          refine ⟨m, e, h, rfl, Nat.pos_of_ne_zero ?_, hx.symm⟩
          rintro rfl
          rw [Nat.cast_zero, zero_mul] at hx
          linarith

theorem div_eq_round (hx : x.value? = some p) (hy : y.value? = some q) (hp : 0 < p) (hq : 0 < q)
    (hden : 0 < den) (h : (num : ℚ) / den = p / q) : x.div y = round false num den := by
  obtain ⟨m, e, hm, rfl, hmpos, rfl⟩ := exists_finite hx hp
  obtain ⟨n, d, hn, rfl, hnpos, rfl⟩ := exists_finite hy hq
  have hvalue := cast_scaled m n (d - e)
  rw [neg_sub, zpow_sub₀ two_ne_zero, ← mul_div_mul_comm, ← h] at hvalue
  rw [div, if_neg hnpos.ne']
  exact round_congr (scaled_snd_pos m hnpos _) hden hvalue

theorem mul_eq_round (hx : x.value? = some p) (hy : y.value? = some q) (hp : 0 < p) (hq : 0 < q)
    (hden : 0 < den) (h : (num : ℚ) / den = p * q) : x.mul y = round false num den := by
  obtain ⟨m, e, hm, rfl, hmpos, rfl⟩ := exists_finite hx hp
  obtain ⟨n, d, hn, rfl, hnpos, rfl⟩ := exists_finite hy hq
  have hvalue := cast_ratio (m * n) (e + d)
  rw [Nat.cast_mul, zpow_add₀ two_ne_zero, mul_mul_mul_comm, ← h] at hvalue
  rw [mul]
  exact round_congr (ratio_snd_pos (m * n) (e + d)) hden hvalue

/-- A whole number is kept exactly as long as the precision covers it but for powers of two. -/
theorem value?_round_mul_two_pow (hf : f.Regular) (hn : n < 2 ^ f.precision) {k : ℕ}
    (hsize : ((n * 2 ^ k : ℕ) : ℚ) < 2 ^ f.maxExponent) :
    (round false (n * 2 ^ k) 1 : Binary f).value? = some (n * 2 ^ k : ℕ) := by
  have hmin := hf.minExponent_nonpos
  have hself : f.nearest (n * 2 ^ k : ℕ) = (n * 2 ^ k : ℕ) := by
    have h := Format.nearest_mul_zpow (f := f) (e := k) hn (by omega)
    rw [zpow_natCast] at h
    push_cast
    exact h
  have hbelow : ((n * 2 ^ k : ℕ) : ℚ) < f.limit :=
    hsize.trans_le (zpow_le_zpow_right₀ one_le_two (by omega))
  rw [value?_round hf _ _ one_pos, Nat.cast_one, div_one, hself, if_pos hbelow]
  rfl

end Binary

/-- A numeral read as a double on the way to a single. -/
theorem Numeral.convert_toBinary {n : Numeral} (h : Format.single.Canonical m e)
    (hn : Format.single.nearest (Format.double.nearest n.size) = m * 2 ^ e) :
    ((n.toBinary .double).convert : Single) = .finite n.negative m e h := by
  have hbelow : Format.double.nearest n.size < Format.double.limit := by
    have hsingle : |Format.single.nearest (Format.double.nearest n.size)| < Format.single.limit := by
      rw [hn, abs_of_nonneg (by positivity), regular_single.mul_zpow_lt_limit_iff h.1 h.2.2.2]
      exact h.2.2.1
    have hle : Format.single.limit ≤ Format.double.limit := by
      rw [Format.limit, Format.limit]
      apply zpow_le_zpow_right₀ one_le_two
      decide
    calc Format.double.nearest n.size ≤ |Format.double.nearest n.size| := le_abs_self _
      _ < Format.single.limit := regular_single.abs_lt_limit hsingle
      _ ≤ Format.double.limit := hle
  have hvalue := Numeral.value?_toBinary regular_double n
  rw [if_pos hbelow] at hvalue
  rcases n.toBinary_cases .double with hcase | ⟨k, c, hk, hcase⟩
  · rw [hcase] at hvalue
    cases hvalue
  · rw [hcase] at hvalue ⊢
    rw [Binary.convert]
    refine Binary.round_eq_of_nearest regular_single _ (Binary.ratio_snd_pos k c) h ?_
    have hsame := congrArg abs (Option.some_inj.mp hvalue)
    have hpos : (0 : ℚ) ≤ k * 2 ^ c := mul_nonneg k.cast_nonneg (two_zpow_pos c).le
    rw [abs_withSign, abs_withSign, abs_of_nonneg hpos,
      abs_of_nonneg (Format.double.nearest_nonneg n.size_nonneg)] at hsame
    rw [Binary.cast_ratio, hsame, hn]

end RecordFilter.Number
