import Formula.Proofs.Number.Arithmetic
import Formula.Proofs.Number.Decimal

/-!
Reading a decimal that is a double.  Products and quotients whose exact value fits the format are
exact, and so a decimal with such a value is read without rounding (`view_ofScientific`).
-/

open Float.Model Float.Model.UnpackedFloat

namespace Formula.Double

/-! ### Values -/

/-- The exact value of a significand and an exponent. -/
def value (m : Nat) (e : Int) : ℚ := m * 2 ^ e

theorem value_pos {m : Nat} (hm : 0 < m) (e : Int) : 0 < value m e := by
  unfold value
  positivity

theorem twoPow_le_value {m : Nat} (hm : 0 < m) (e : Int) : 2 ^ (m.log2 + e) ≤ value m e := by
  have hlow : ((2 ^ m.log2 : Nat) : ℚ) ≤ m := by exact_mod_cast Nat.log2_self_le hm.ne'
  rw [value, zpow_add₀ (by norm_num)]
  gcongr
  simpa using hlow

theorem value_lt_twoPow (m : Nat) (e : Int) : value m e < 2 ^ (m.log2 + 1 + e) := by
  have hhigh : (m : ℚ) < (2 ^ (m.log2 + 1) : Nat) := by exact_mod_cast Nat.lt_log2_self
  rw [value, zpow_add₀ (by norm_num)]
  gcongr
  exact_mod_cast hhigh

/-- Equal values differ by a power of two in the significand. -/
theorem eq_mul_twoPow {m n : Nat} {e f : Int} (hef : e ≤ f) (h : value m e = value n f) :
    ∃ k : Nat, m = n * 2 ^ k ∧ e = f - k := by
  obtain ⟨k, hk⟩ : ∃ k : Nat, e = f - k := ⟨(f - e).toNat, by omega⟩
  refine ⟨k, ?_, hk⟩
  rw [value, value, hk, zpow_sub₀ (by norm_num), zpow_natCast] at h
  field_simp at h
  rw [Nat.mul_comm]
  exact_mod_cast h

theorem value_mul (m n : Nat) (e f : Int) : value (m * n) (e + f) = value m e * value n f := by
  simp only [value]
  rw [zpow_add₀ (by norm_num)]
  push_cast
  ring

theorem value_mul_twoPow (m k : Nat) (e : Int) : value (m * 2 ^ k) e = value m (e + k) := by
  simp only [value]
  rw [zpow_add₀ (by norm_num), zpow_natCast]
  push_cast
  ring

/-! ### Exact products and quotients -/

section Exact

variable {M : Nat} {E : Int} {hM : 0 < M}

theorem round_of_value {s : Sign} (h : Fits (.finite s M E hM)) {n : Nat} {e : Int} (he : e ≤ E)
    (hvalue : value n e = value M E) :
    roundWithAccuracy format s n e .exact = .finite s M E hM := by
  obtain ⟨k, rfl, rfl⟩ := eq_mul_twoPow he hvalue
  exact round_exact h k

variable {s t : Sign} {a b : Nat} {ea eb : Int} {ha : 0 < a} {hb : 0 < b}

theorem mul_of_value (h : Fits (.finite (s * t) M E hM)) (he : ea + eb ≤ E)
    (hvalue : value a ea * value b eb = value M E) :
    UnpackedFloat.mul format (.finite s a ea ha) (.finite t b eb hb) = .finite (s * t) M E hM := by
  refine round_of_value h he ?_
  rw [← hvalue, value_mul]

/-- A quotient is computed to an exponent no larger than that of the result. -/
theorem targetExponent_le_of_value (h : Fits (.finite s M E hM))
    (hvalue : value a ea = value M E * value b eb) (ha : 0 < a) (hb : 0 < b) :
    min (ea - eb) (format.targetExponent (totalExponent a ea - totalExponent b eb)) ≤ E := by
  have hlog : a.log2 + ea < (M.log2 + 1 + E) + (b.log2 + 1 + eb) := by
    have hlt : (2 : ℚ) ^ (a.log2 + ea) < 2 ^ ((M.log2 + 1 + E) + (b.log2 + 1 + eb)) := by
      calc (2 : ℚ) ^ (a.log2 + ea) ≤ value M E * value b eb := hvalue ▸ twoPow_le_value ha ea
        _ < 2 ^ (M.log2 + 1 + E) * 2 ^ (b.log2 + 1 + eb) :=
          mul_lt_mul'' (value_lt_twoPow M E) (value_lt_twoPow b eb) (value_pos hM E).le
            (value_pos hb eb).le
        _ = _ := (zpow_add₀ (by norm_num) _ _).symm
    exact (zpow_lt_zpow_iff_right₀ (by norm_num)).1 hlt
  have hexponent := targetExponent_of_fits h
  have hmin : format.minExponent = -1074 := rfl
  simp only [Format.targetExponent, totalExponent, mantissaBits_eq, hmin] at hexponent ⊢
  omega

theorem div_of_value (h : Fits (.finite (s / t) M E hM))
    (hvalue : value a ea = value M E * value b eb) :
    UnpackedFloat.div format (.finite s a ea ha) (.finite t b eb hb) = .finite (s / t) M E hM := by
  let target := min (ea - eb) (format.targetExponent (totalExponent a ea - totalExponent b eb))
  have htarget : target ≤ E := targetExponent_le_of_value h hvalue ha hb
  obtain ⟨j, hj⟩ : ∃ j : Nat, ea - eb - target = j := ⟨(ea - eb - target).toNat, by omega⟩
  have hshifted : value (a * 2 ^ j) (target + eb) = value (M * b) (E + eb) := by
    rw [value_mul_twoPow, value_mul, ← hvalue]
    congr 1
    omega
  obtain ⟨k, hproduct, hexponent⟩ := eq_mul_twoPow (by omega) hshifted
  have hk : target = E - k := by omega
  have hshift : a <<< (ea - eb - target).toNat = M * 2 ^ k * b := by
    rw [hj, Int.toNat_natCast, Nat.shiftLeft_eq, hproduct]
    ring
  have hdiv : a <<< (ea - eb - target).toNat / b = M * 2 ^ k := by
    rw [hshift, Nat.mul_div_cancel _ hb]
  have hmod : a <<< (ea - eb - target).toNat % b = 0 := by
    rw [hshift, Nat.mul_mod_left]
  show roundWithAccuracy format (s / t) (a <<< (ea - eb - target).toNat / b) target
    (accuracyOfFraction (a <<< (ea - eb - target).toNat % b) b) = _
  rw [hdiv, hmod, hk]
  exact round_exact h k

end Exact

/-! ### Decimals with an exact value -/

section Decimal

variable {M : Nat} {E : Int} {hM : 0 < M} (hfits : Fits (.finite .positive M E hM)) {m : Nat}
  {e : Int} (hvalue : (m : ℚ) * 10 ^ e = value M E)

theorem digits_pos (hM : 0 < M) (hvalue : (m : ℚ) * 10 ^ e = value M E) : 0 < m := by
  have hpos := value_pos hM E
  rw [← hvalue] at hpos
  by_contra hzero
  obtain rfl : m = 0 := by omega
  simp at hpos

include hfits

theorem value_lt_of_fits : value M E < 2 ^ (1024 : Int) := by
  obtain ⟨hlt, -, hhigh, -⟩ := hfits
  have hlog : M.log2 < 53 := (Nat.log2_lt hM.ne').2 hlt
  calc value M E < 2 ^ (M.log2 + 1 + E) := value_lt_twoPow M E
    _ ≤ 2 ^ (1024 : Int) := zpow_le_zpow_right₀ (by norm_num) (by omega)

theorem le_value_of_fits : 2 ^ (-1074 : Int) ≤ value M E := by
  obtain ⟨-, hlow, -, -⟩ := hfits
  calc (2 : ℚ) ^ (-1074 : Int) ≤ 2 ^ (M.log2 + E) := zpow_le_zpow_right₀ (by norm_num) (by omega)
    _ ≤ value M E := twoPow_le_value hM E

include hvalue

theorem exponent_le : e ≤ 2048 := by
  by_contra hbig
  have hm : (1 : ℚ) ≤ m := by exact_mod_cast digits_pos hM hvalue
  have hlarge : (2 : ℚ) ^ (1024 : Int) ≤ m * 10 ^ e := by
    calc (2 : ℚ) ^ (1024 : Int) ≤ 2 ^ e := zpow_le_zpow_right₀ (by norm_num) (by omega)
      _ ≤ 10 ^ e := zpow_le_zpow_left₀ (by omega) (by norm_num) (by norm_num)
      _ ≤ m * 10 ^ e := le_mul_of_one_le_left (by positivity) hm
  exact absurd (value_lt_of_fits hfits) (not_lt.2 (hvalue ▸ hlarge))

theorem le_exponent : -(2048 + m.log2 : Int) ≤ e := by
  by_contra hsmall
  have hpow : (10 : ℚ) ^ e ≤ 2 ^ e := by
    rw [← neg_neg e, zpow_neg, zpow_neg _ (-e)]
    refine inv_anti₀ (by positivity) ?_
    exact zpow_le_zpow_left₀ (by omega) (by norm_num) (by norm_num)
  have htiny : (m : ℚ) * 10 ^ e < 2 ^ (-1074 : Int) := by
    calc (m : ℚ) * 10 ^ e ≤ m * 2 ^ e := by gcongr
      _ < 2 ^ (m.log2 + 1 + e) := value_lt_twoPow m e
      _ ≤ 2 ^ (-1074 : Int) := zpow_le_zpow_right₀ (by norm_num) (by omega)
  exact absurd (le_value_of_fits hfits) (not_le.2 (hvalue ▸ htiny))

/-- The reader that computes with naturals is exact. -/
theorem ofScientific_exact : UnpackedFloat.ofScientific format m e = .finite .positive M E hM := by
  have hm := digits_pos hM hvalue
  have hlarge := exponent_le hfits hvalue
  have hsmall := le_exponent hfits hvalue
  have hbits : (2 : Int) ^ format.exponentBits = 2048 := rfl
  have hmantissa : (m <<< format.mantissaBits : Nat) = m * 2 ^ 53 := by
    rw [Nat.shiftLeft_eq, mantissaBits_eq]
  rw [UnpackedFloat.ofScientific, dif_neg hm.ne', if_neg (by rw [hbits]; omega),
    if_neg (by rw [hbits]; omega)]
  split
  · rename_i he
    have hpower : (10 : ℚ) ^ e = (10 ^ e.toNat : Nat) := by
      push_cast
      rw [← zpow_natCast, Int.toNat_of_nonneg he]
    have hwhole : (1 : ℚ) ≤ value M E := by
      rw [← hvalue, hpower]
      exact_mod_cast Nat.mul_pos hm (Nat.pow_pos (by decide))
    have hexponent : -53 ≤ E := by
      have hlog : M.log2 < 53 := (Nat.log2_lt hM.ne').2 hfits.1
      have hlt : (2 : ℚ) ^ (0 : Int) < 2 ^ (M.log2 + 1 + E) := by
        rw [zpow_zero]
        exact hwhole.trans_lt (value_lt_twoPow M E)
      have := (zpow_lt_zpow_iff_right₀ (by norm_num)).1 hlt
      omega
    refine mul_of_value (s := .positive) (t := .positive) hfits ?_ ?_
    · simpa [mantissaBits_eq] using hexponent
    · rw [hmantissa, mantissaBits_eq, value_mul_twoPow, ← hvalue, hpower]
      simp [value]
  · rename_i he
    have hten : (10 : ℚ) ^ (-e).toNat * 10 ^ e = 1 := by
      rw [← zpow_natCast, ← zpow_add₀ (by norm_num), Int.toNat_of_nonneg (by omega)]
      simp
    refine div_of_value (s := .positive) (t := .positive) hfits ?_
    rw [← hvalue]
    simp only [value, zpow_zero, mul_one]
    push_cast
    rw [mul_assoc, mul_comm _ ((10 : ℚ) ^ (-e).toNat), hten, mul_one]

end Decimal

/-! ### The table of powers -/

/-- A double with a full significand whose value is a given natural number. -/
def IsWhole (x : Float) (n : Nat) : Prop :=
  ∃ a e ha, view x = .finite .positive a e ha ∧ 2 ^ 52 ≤ a ∧ value a e = n

/-- Whether a double is a given power of ten. -/
def checkPower (x : Float) (k : Nat) : Bool :=
  match view x with
  | .finite .positive a e _ => 2 ^ 52 ≤ a && a * 2 ^ e.toNat == 10 ^ k * 2 ^ (-e).toNat
  | _ => false

theorem isWhole_of_checkPower {x : Float} {k : Nat} (h : checkPower x k) :
    IsWhole x (10 ^ k) := by
  rw [checkPower] at h
  split at h
  · rename_i a e ha hview
    obtain ⟨hlow, hpower⟩ := (Bool.and_eq_true_iff.1 h).imp of_decide_eq_true beq_iff_eq.1
    refine ⟨a, e, ha, hview, hlow, ?_⟩
    have hcast : (a : ℚ) * 2 ^ (e.toNat : Int) = 10 ^ k * 2 ^ ((-e).toNat : Int) := by
      exact_mod_cast hpower
    have hexponent : e = e.toNat - (-e).toNat := by omega
    rw [value, hexponent, zpow_sub₀ (by norm_num), ← mul_div_assoc, hcast]
    field_simp
    push_cast
    rfl
  · exact absurd h nofun

theorem checkPower_table : ∀ i : Fin Float.exactlyRepresentablePowersOfTen.size,
    checkPower Float.exactlyRepresentablePowersOfTen[i] i := by decide +kernel

/-- The table holds the powers of ten. -/
theorem isWhole_power {k : Nat} (hk : k < Float.exactlyRepresentablePowersOfTen.size) :
    IsWhole Float.exactlyRepresentablePowersOfTen[k] (10 ^ k) :=
  isWhole_of_checkPower (checkPower_table ⟨k, hk⟩)

/-- A natural number below the precision is a double. -/
theorem isWhole_natural {m : Nat} (hm : 0 < m) (hlt : m < 2 ^ 53) :
    IsWhole m.toUInt64.toFloat m := by
  have hlog : m.log2 < 53 := (Nat.log2_lt hm.ne').2 hlt
  -- the significand is shifted to its full width
  obtain ⟨j, hj⟩ : ∃ j, m.log2 + j = 52 := ⟨52 - m.log2, by omega⟩
  have hpos : 0 < m * 2 ^ j := Nat.mul_pos hm (Nat.two_pow_pos j)
  obtain ⟨hlow, hhigh⟩ := (Nat.log2_eq_iff hpos.ne').1 ((log2_mul_twoPow hm j).trans hj)
  have hfits : Fits (.finite .positive (m * 2 ^ j) (-j) hpos) :=
    ⟨hhigh, by omega, by omega, .inl hlow⟩
  have htarget : format.targetExponent (totalExponent m 0) = -j := by
    have hmin : format.minExponent = -1074 := rfl
    simp only [Format.targetExponent, totalExponent, mantissaBits_eq, hmin]
    omega
  have hround : UnpackedFloat.round format .positive m 0 =
      .finite .positive (m * 2 ^ j) (-j) hpos := by
    have hshift : (0 - (-j : Int)).toNat = j := by omega
    have hexact := round_exact hfits 0
    rw [Nat.pow_zero, Nat.mul_one, Int.natCast_zero, Int.sub_zero] at hexact
    simp only [UnpackedFloat.round, decreaseExponent, htarget, hshift, Nat.shiftLeft_eq]
    rw [Int.zero_sub]
    exact hexact
  have hnat : m.toUInt64.toNat = m := Nat.mod_eq_of_lt (hlt.trans (by decide))
  have hview : view m.toUInt64.toFloat =
      stored (UnpackedFloat.normalize format (m.toUInt64.toNat : Int) 0 .positive) := rfl
  have hnormalize : UnpackedFloat.normalize format (m : Int) 0 .positive =
      UnpackedFloat.round format .positive m 0 := by
    have hcompare : compare (m : Int) 0 = .gt := Int.compare_eq_gt.2 (by omega)
    simp only [UnpackedFloat.normalize, hcompare, Int.toNat_natCast]
  refine ⟨m * 2 ^ j, -j, hpos, ?_, hlow, ?_⟩
  · rw [hview, hnat, hnormalize, hround, stored_of_fits hfits]
  · rw [value_mul_twoPow, neg_add_cancel, value, zpow_zero, mul_one]

/-! ### Reading -/

/-- Few digits and a small power of ten are multiplied or divided as doubles. -/
theorem ofScientific_of_small {m : Nat} {e : Int} (h : m < 2 ^ 53 ∧ e.natAbs ≤ 22) :
    ∃ y, IsWhole y (10 ^ e.natAbs) ∧ Float.ofScientific m (e < 0) e.natAbs =
      if e < 0 then m.toUInt64.toFloat / y else m.toUInt64.toFloat * y := by
  have hk : e.natAbs < Float.exactlyRepresentablePowersOfTen.size := Nat.lt_succ_of_le h.2
  refine ⟨_, isWhole_power hk, ?_⟩
  rw [Float.ofScientific, dif_pos h]
  simp only [decide_eq_true_eq]

/-- All others are computed with naturals. -/
theorem view_ofScientific_of_large {m : Nat} {e : Int} (h : ¬ (m < 2 ^ 53 ∧ e.natAbs ≤ 22)) :
    view (Float.ofScientific m (e < 0) e.natAbs) =
      stored (UnpackedFloat.ofScientific format m e) := by
  have hsigned : (if decide (e < 0) then Int.negOfNat e.natAbs else Int.ofNat e.natAbs) = e := by
    cases e with
    | ofNat n => simp
    | negSucc n => simp [Int.negOfNat]
  rw [Float.ofScientific, dif_neg h, hsigned]
  rfl

section Reading

variable {M : Nat} {E : Int} {hM : 0 < M} (hfits : Fits (.finite .positive M E hM)) {x y : Float}
  {m n : Nat}

include hfits

theorem view_mul_whole (hx : IsWhole x m) (hy : IsWhole y n) (hvalue : (m * n : ℚ) = value M E) :
    view (x * y) = .finite .positive M E hM := by
  obtain ⟨a, ea, ha, hview, hlow, hm⟩ := hx
  obtain ⟨b, eb, hb, hview', hlow', hn⟩ := hy
  have hexponent : ea + eb ≤ E := by
    have hloga : 52 ≤ a.log2 := (Nat.le_log2 ha.ne').2 hlow
    have hlogb : 52 ≤ b.log2 := (Nat.le_log2 hb.ne').2 hlow'
    have hlogM : M.log2 < 53 := (Nat.log2_lt hM.ne').2 hfits.1
    have hlt : (2 : ℚ) ^ ((a.log2 + ea) + (b.log2 + eb)) < 2 ^ (M.log2 + 1 + E) := by
      calc (2 : ℚ) ^ ((a.log2 + ea) + (b.log2 + eb)) = 2 ^ (a.log2 + ea) * 2 ^ (b.log2 + eb) :=
            zpow_add₀ (by norm_num) _ _
        _ ≤ value a ea * value b eb :=
            mul_le_mul (twoPow_le_value ha ea) (twoPow_le_value hb eb) (by positivity)
              (value_pos ha ea).le
        _ = value M E := by rw [hm, hn, hvalue]
        _ < 2 ^ (M.log2 + 1 + E) := value_lt_twoPow M E
    have := (zpow_lt_zpow_iff_right₀ (by norm_num)).1 hlt
    omega
  have hexact : value a ea * value b eb = value M E := by rw [hm, hn, hvalue]
  rw [view_mul, hview, hview',
    mul_of_value (s := .positive) (t := .positive) hfits hexponent hexact]
  exact stored_of_fits hfits

theorem view_div_whole (hx : IsWhole x m) (hy : IsWhole y n) (hvalue : (m : ℚ) = value M E * n) :
    view (x / y) = .finite .positive M E hM := by
  obtain ⟨a, ea, ha, hview, -, hm⟩ := hx
  obtain ⟨b, eb, hb, hview', -, hn⟩ := hy
  have hexact : value a ea = value M E * value b eb := by rw [hm, hn, hvalue]
  rw [view_div, hview, hview', div_of_value (s := .positive) (t := .positive) hfits hexact]
  exact stored_of_fits hfits

/-- **A decimal whose value fits the format is read exactly.** -/
theorem view_ofScientific {m : Nat} {e : Int} (hvalue : (m : ℚ) * 10 ^ e = value M E) :
    view (Float.ofScientific m (e < 0) e.natAbs) = .finite .positive M E hM := by
  by_cases hsmall : m < 2 ^ 53 ∧ e.natAbs ≤ 22
  · have hm := isWhole_natural (digits_pos hM hvalue) hsmall.1
    obtain ⟨y, hpower, hread⟩ := ofScientific_of_small hsmall
    rw [hread]
    split
    · refine view_div_whole hfits hm hpower ?_
      obtain ⟨k, rfl⟩ : ∃ k : Nat, e = -k := ⟨e.natAbs, by omega⟩
      rw [← hvalue, mul_assoc]
      simp
    · refine view_mul_whole hfits hm hpower ?_
      obtain ⟨k, rfl⟩ : ∃ k : Nat, e = k := ⟨e.natAbs, by omega⟩
      rw [← hvalue]
      simp
  · rw [view_ofScientific_of_large hsmall, ofScientific_exact hfits hvalue]
    exact stored_of_fits hfits

end Reading

end Formula.Double
