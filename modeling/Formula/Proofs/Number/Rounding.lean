import Formula.Proofs.Number.Scientific

/-!
Results that stay in range.  Rounding a number whose value lies below that of the largest double
gives no infinity, since the carry of the last digit cannot reach the next power of two
(`isFinite_normalize`).  So a finite double less one is finite (`isFinite_sub_one`).
-/

open Float.Model Float.Model.UnpackedFloat

namespace Formula.Double

/-! ### Shifting -/

theorem mantissa_repeat (k : Nat) (m : ExtendedMantissa) :
    (k.repeat ExtendedMantissa.shiftRightOne m).mantissa = m.mantissa / 2 ^ k := by
  induction k with
  | zero => simp [Nat.repeat]
  | succ k ih =>
    rw [Nat.repeat, ExtendedMantissa.shiftRightOne, ih, Nat.div_div_eq_div_mul, Nat.pow_succ]

/-- Rounding carries at most one. -/
theorem roundedMantissa_le (m : ExtendedMantissa) : m.roundedMantissa ≤ m.mantissa + 1 := by
  obtain ⟨m, round, sticky⟩ := m
  cases round <;> cases sticky <;>
    simp only [ExtendedMantissa.roundedMantissa, ExtendedMantissa.accuracy,
      Accuracy.roundToNearestEven] <;> omega

theorem mantissa_shiftToExponent (m : Nat) (e t : Int) :
    (shiftToExponent m e .exact t).1.mantissa = m / 2 ^ (t - e).toNat :=
  mantissa_repeat _ _

theorem exponent_shiftToExponent (m : Nat) (e t : Int) :
    (shiftToExponent m e .exact t).2 = max e t := by
  simp only [shiftToExponent]
  omega

/-! ### The range -/

/-- The value of the largest double. -/
def largest : ℚ := value (2 ^ 53 - 1) 971

theorem value_mono {m n : Nat} {e f : Int} (hm : m ≤ n) (he : e ≤ f) : value m e ≤ value n f := by
  have hpow : (2 : ℚ) ^ e ≤ 2 ^ f := zpow_le_zpow_right₀ (by norm_num) he
  have hcast : (m : ℚ) ≤ n := by exact_mod_cast hm
  exact mul_le_mul hcast hpow (by positivity) (by positivity)

theorem value_twoPow (k : Nat) (e : Int) : value (2 ^ k) e = 2 ^ (k + e) := by
  rw [value, zpow_add₀ (by norm_num), zpow_natCast]
  push_cast
  rfl

theorem largest_lt : largest < 2 ^ (1024 : Int) := by
  have htop : value (2 ^ 53) 971 = 2 ^ (1024 : Int) := value_twoPow 53 971
  rw [← htop, largest, value, value]
  gcongr
  norm_num

theorem isFinite_unpack (s : Sign) {e : BitVec 11} (m : BitVec 52) (he : e ≠ -1#11) :
    (UnpackedFloat.unpack format (packComponents format s e m)).isFinite := by
  unfold UnpackedFloat.unpack
  simp only [unpackMantissa_packComponents, unpackExponent_packComponents,
    unpackSign_packComponents, ofBitVec_toBitVec, if_neg he]
  split
  · split <;> rfl
  · rfl

/-- A significand with an exponent in range is stored as a finite number. -/
theorem isFinite_stored {s : Sign} {m : Nat} {e : Int} {hm : 0 < m} (he : e ≤ 971) :
    (stored (.finite s m e hm)).isFinite := by
  rw [stored, pack_finite, if_neg (by omega)]
  split
  · exact isFinite_unpack s _ (ofNat_ne_of_lt (k := 2047) (by omega) (by omega))
  · exact isFinite_unpack s _ (by decide)

/-- The exponent that a number below a bound is rounded to. -/
theorem targetExponent_le {m : Nat} {e : Int} (he : e ≤ 971) (h : value m e < 2 ^ (1024 : Int)) :
    format.targetExponent (totalExponent m e) ≤ 971 := by
  have hmin : format.minExponent = -1074 := rfl
  simp only [Format.targetExponent, totalExponent, mantissaBits_eq, hmin]
  by_cases hm : m = 0
  · subst hm
    have hlog : Nat.log2 0 = 0 := rfl
    omega
  · have hlog : (2 : ℚ) ^ (m.log2 + e) < 2 ^ (1024 : Int) :=
      (twoPow_le_value (Nat.pos_of_ne_zero hm) e).trans_lt h
    have := (zpow_lt_zpow_iff_right₀ (by norm_num)).1 hlog
    omega

/-- A number below the largest double stays in range when a digit is carried. -/
theorem value_rounded_lt {m r : Nat} {e : Int} (he : e ≤ 971) (h : value m e < largest)
    (hr : r ≤ m / 2 ^ (format.targetExponent (totalExponent m e) - e).toNat + 1) :
    value r (max e (format.targetExponent (totalExponent m e))) < 2 ^ (1024 : Int) := by
  have htarget : format.targetExponent (totalExponent m e) ≤ 971 :=
    targetExponent_le he (h.trans largest_lt)
  have hdigits : (m.log2 : Int) + e - 52 ≤ format.targetExponent (totalExponent m e) := by
    simp only [Format.targetExponent, totalExponent, mantissaBits_eq]
    omega
  generalize format.targetExponent (totalExponent m e) = t at *
  obtain ⟨k, hk⟩ : ∃ k : Nat, (t - e).toNat = k := ⟨_, rfl⟩
  rw [hk] at hr
  have hmax : max e t = e + k := by omega
  rw [hmax]
  by_cases htop : e + k = 971
  · -- at the top there is room for the carry
    have hquotient : value (m / 2 ^ k) 971 < largest := by
      rw [← htop, ← value_mul_twoPow]
      exact (value_mono (Nat.div_mul_le_self m _) le_rfl).trans_lt h
    have hlt : m / 2 ^ k < 2 ^ 53 - 1 := by
      by_contra hge
      exact absurd (value_mono (not_lt.1 hge) le_rfl) (not_le.2 hquotient)
    rw [htop]
    exact (value_mono (by omega) le_rfl).trans_lt largest_lt
  · have hlt : m / 2 ^ k < 2 ^ 53 := by
      rw [Nat.div_lt_iff_lt_mul (Nat.two_pow_pos k), ← Nat.pow_add]
      exact Nat.lt_log2_self.trans_le (Nat.pow_le_pow_right (by decide) (by omega))
    calc value r (e + k) ≤ value (2 ^ 53) 970 := value_mono (by omega) (by omega)
      _ = 2 ^ (1023 : Int) := value_twoPow 53 970
      _ < 2 ^ (1024 : Int) := zpow_lt_zpow_right₀ (by norm_num) (by norm_num)

/-- **A number below the largest double is rounded to a finite one.** -/
theorem isFinite_roundWithAccuracy {s : Sign} {m : Nat} {e : Int} (he : e ≤ 971)
    (h : value m e < largest) : (stored (roundWithAccuracy format s m e .exact)).isFinite := by
  have htarget : format.targetExponent (totalExponent m e) ≤ 971 :=
    targetExponent_le he (h.trans largest_lt)
  simp only [roundWithAccuracy]
  split
  · rw [stored_zero]
    rfl
  · refine isFinite_stored ?_
    simp only [shiftToTargetExponent, exponent_shiftToExponent]
    refine max_le (max_le he htarget) (targetExponent_le (max_le he htarget) ?_)
    refine value_rounded_lt he h ?_
    rw [← mantissa_shiftToExponent]
    exact roundedMantissa_le _

/-- A number below the largest double in magnitude is normalized to a finite one. -/
theorem isFinite_normalize {m : Int} {e : Int} {s : Sign} (he : e ≤ 971)
    (h : value m.natAbs e < largest) : (stored (normalize format m e s)).isFinite := by
  have hround (s : Sign) : (stored (UnpackedFloat.round format s m.natAbs e)).isFinite := by
    simp only [UnpackedFloat.round, decreaseExponent, Nat.shiftLeft_eq]
    refine isFinite_roundWithAccuracy (by omega) ?_
    rw [value_mul_twoPow]
    simpa using h
  unfold UnpackedFloat.normalize
  split
  · rename_i hcompare
    have hm : m < 0 := compare_lt_iff_lt.1 hcompare
    obtain hm : (-m).toNat = m.natAbs := by omega
    rw [hm]
    exact hround _
  · rw [stored_zero]
    rfl
  · rename_i hcompare
    have hm : 0 < m := compare_gt_iff_gt.1 hcompare
    obtain hm : m.toNat = m.natAbs := by omega
    rw [hm]
    exact hround _

/-! ### One less -/

theorem value_natAbs (z : Int) (e : Int) : value z.natAbs e = |(z : ℚ) * 2 ^ e| := by
  rw [value, abs_mul, abs_of_pos (show (0 : ℚ) < 2 ^ e by positivity), Nat.cast_natAbs,
    Int.cast_abs]

/-- A number that is not the largest double lies below it by more than one. -/
theorem value_add_one_lt {m : Nat} {e : Int} (hm : m < 2 ^ 53) (he : e ≤ 971)
    (h : ¬ (m = 2 ^ 53 - 1 ∧ e = 971)) : value m e + 1 < largest := by
  have hlarge : (1 : ℚ) < 2 ^ (970 : Int) := one_lt_zpow₀ (by norm_num) (by norm_num)
  have htwice : (2 : ℚ) ^ (971 : Int) = 2 * 2 ^ (970 : Int) := by
    rw [← zpow_one_add₀ (by norm_num)]
    rfl
  have hbelow : value m e ≤ value (2 ^ 53 - 2) 971 ∨ value m e ≤ value (2 ^ 53 - 1) 970 := by
    by_cases htop : e = 971
    · exact .inl (value_mono (by omega) he)
    · exact .inr (value_mono (by omega) (by omega))
  generalize value m e = v at hbelow ⊢
  simp only [largest, value, htwice] at hbelow ⊢
  generalize (2 : ℚ) ^ (970 : Int) = p at hlarge hbelow ⊢
  norm_num only at hbelow ⊢
  rcases hbelow with hbelow | hbelow
  · linarith
  · linarith

theorem one_lt_largest : 1 < largest := by
  have hzero : value 0 0 + 1 < largest := value_add_one_lt (by decide) (by decide) (by decide)
  simpa [value] using hzero

/-- The largest double less one, with a minus, is the largest double. -/
theorem isFinite_largest_sub_one :
    (stored (UnpackedFloat.sub format (.finite .negative (2 ^ 53 - 1) 971 (by decide))
      (unit .positive))).isFinite := by
  decide +kernel

/-- **A finite number less one is finite.** -/
theorem isFinite_sub_unit {f : UnpackedFloat} (hf : Fits f) (h : f.isFinite) :
    (stored (UnpackedFloat.sub format f (unit .positive))).isFinite := by
  rcases zero_or_finite h with ⟨s, rfl⟩ | ⟨s, m, e, hm, rfl⟩
  · cases s <;> decide +kernel
  · obtain ⟨hlt, -, hhigh, -⟩ := hf
    by_cases hmost : m = 2 ^ 53 - 1 ∧ e = 971 ∧ s = .negative
    · obtain ⟨rfl, rfl, rfl⟩ := hmost
      exact isFinite_largest_sub_one
    · let d := min e (-52)
      have hd : d ≤ 971 := by omega
      have hleft : value (m <<< (e - d).toNat) d = value m e := by
        have hshift : d + (e - d).toNat = e := by omega
        rw [Nat.shiftLeft_eq, value_mul_twoPow, hshift]
      have hone : value (2 ^ 52 <<< (-52 - d).toNat) d = 1 := by
        have hshift : d + (-52 - d).toNat = -52 := by omega
        rw [Nat.shiftLeft_eq, value_mul_twoPow, hshift, value_twoPow]
        rfl
      have hvalue : 0 ≤ value m e := (value_pos hm e).le
      have hlargest : value m e ≤ largest := value_mono (by omega) hhigh
      refine isFinite_normalize hd ?_
      show value (s.apply (m <<< (e - d).toNat) -
        Sign.positive.apply (2 ^ 52 <<< (-52 - d).toNat)).natAbs d < largest
      generalize m <<< (e - d).toNat = a at hleft ⊢
      generalize 2 ^ 52 <<< (-52 - d).toNat = b at hone ⊢
      rw [value] at hleft hone
      cases s with
      | positive =>
        have hsplit : ((a : ℚ) - b) * 2 ^ d = value m e - 1 := by rw [sub_mul, hleft, hone]
        rw [value_natAbs, abs_lt]
        push_cast [Sign.apply, hsplit]
        exact ⟨by linarith [one_lt_largest], by linarith⟩
      | negative =>
        have hadd := value_add_one_lt hlt hhigh fun h => hmost ⟨h.1, h.2, rfl⟩
        have hsplit : (-(a : ℚ) - b) * 2 ^ d = -value m e - 1 := by
          rw [sub_mul, neg_mul, hleft, hone]
        rw [value_natAbs, abs_lt]
        push_cast [Sign.apply, hsplit]
        exact ⟨by linarith, by linarith⟩

end Formula.Double
