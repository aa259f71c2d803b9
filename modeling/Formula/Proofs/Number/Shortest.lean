import Formula.Proofs.Number.Scientific

/-!
The numeral of a double denotes it again.  A finite double has an exact decimal, and so its shortest
decimal is one that is read as its magnitude (`eq_ofDecimal_shortest`).
-/

open Float.Model Float.Model.UnpackedFloat

namespace Formula.Double

/-! ### The magnitude -/

/-- The fields that a finite number is unpacked from. -/
theorem fields_of_unpack {b : BitVec format.numBits} {s : Sign} {m : Nat} {e : Int} {hm : 0 < m}
    (h : UnpackedFloat.unpack format b = .finite s m e hm) :
    s = Sign.ofBitVec (unpackSign b) ∧
      (m, e) = if (unpackExponent b).toNat = 0 then ((unpackMantissa b).toNat, -1074)
        else ((unpackMantissa b).toNat + 2 ^ 52, ((unpackExponent b).toNat : Int) - 1075) := by
  unfold UnpackedFloat.unpack at h
  simp only [bias_eq] at h
  split at h
  · split at h <;> cases h
  · split at h
    · rename_i hexp
      split at h
      · cases h
      · cases h
        refine ⟨rfl, ?_⟩
        rw [hexp, if_pos (by rfl)]
        rfl
    · rename_i hexp
      cases h
      have hpos : (unpackExponent b).toNat ≠ 0 := fun hzero => hexp (BitVec.eq_of_toNat_eq hzero)
      refine ⟨rfl, ?_⟩
      rw [if_neg hpos, toNat_implicit, Nat.add_comm]
      rfl

section Magnitude

variable {x : Float} {s : Sign} {m : Nat} {e : Int} {hm : 0 < m} (h : view x = .finite s m e hm)

include h

theorem magnitude_of_view : magnitude x = (m, e) := by
  obtain ⟨-, hfields⟩ := fields_of_unpack h
  rw [hfields, toNat_unpackExponent, toNat_unpackMantissa]
  rfl

theorem isNegative_of_view : isNegative x = (s == .negative) := by
  obtain ⟨rfl, -⟩ := fields_of_unpack h
  let b : BitVec format.numBits := x.toModel.toBits.toBitVec
  have hsign : isNegative x = ((unpackSign b).toNat == 1) := by
    rw [toNat_unpackSign]
    rfl
  rw [hsign]
  show ((unpackSign b).toNat == 1) = (Sign.ofBitVec (unpackSign b) == .negative)
  generalize unpackSign b = t
  revert t
  decide

theorem view_abs_of_view : view x.abs = .finite .positive m e hm := by
  have hfits : Fits (.finite .positive m e hm) := by
    have := fits_view x
    rwa [h] at this
  rw [view_abs, h]
  exact stored_of_fits hfits

end Magnitude

/-! ### Reading the decimals of a double -/

/-- The exact value of a decimal. -/
def decimalValue (d : Decimal) : ℚ := d.mantissa * 10 ^ d.exponent

theorem decimalValue_trimZeros (m : Nat) (e : Int) :
    decimalValue (Decimal.trimZeros m e) = decimalValue ⟨m, e⟩ := by
  induction m, e using Decimal.trimZeros.induct with
  | case1 m e h ih =>
    obtain ⟨k, rfl⟩ := Nat.dvd_of_mod_eq_zero h.2
    rw [Decimal.trimZeros, dif_pos h, ih, Nat.mul_div_cancel_left k (by decide)]
    simp only [decimalValue]
    rw [zpow_add_one₀ (by norm_num)]
    push_cast
    ring
  | case2 m e h => rw [Decimal.trimZeros, dif_neg h]

theorem decimalValue_trimmed (d : Decimal) : decimalValue d.trimmed = decimalValue d := by
  by_cases hm : d.mantissa = 0
  · simp [Decimal.trimmed, decimalValue, hm]
  · rw [Decimal.trimmed, if_neg hm, decimalValue_trimZeros]

theorem ofDecimal_trimmed (d : Decimal) : ofDecimal d.trimmed = ofDecimal d := by
  simp only [ofDecimal, Decimal.trimmed_trimmed]

/-- A decimal with a given number of digits is only chosen if it denotes the double. -/
theorem eq_ofDecimal_of_withDigits? {x : Float} {num den digits : Nat} {d : Decimal}
    (h : withDigits? x num den digits = some d) : Kernel.eq (ofDecimal d) x := by
  simp only [withDigits?] at h
  split at h
  · rename_i hlow hhigh
    split at h
    · cases h
      exact hlow
    · cases h
      exact hhigh
  · rename_i hlow _
    cases h
    exact hlow
  · rename_i _ hhigh
    cases h
    exact hhigh
  · cases h

section Exact

variable {m : Nat} {e : Int} {hm : 0 < m}

/-- A decimal with the value of a double is read as that double. -/
theorem view_ofDecimal (hfits : Fits (.finite .positive m e hm)) {d : Decimal}
    (hvalue : decimalValue d = value m e) : view (ofDecimal d) = .finite .positive m e hm := by
  rw [← decimalValue_trimmed] at hvalue
  exact view_ofScientific hfits hvalue

/-- Powers of ten cancel the powers of two in a denominator. -/
theorem decimalValue_allDigits (m : Nat) (e : Int) :
    decimalValue (allDigits (m * twoPow e.toNat) (twoPow (-e).toNat)) = value m e := by
  have hlog : (twoPow (-e).toNat).log2 = (-e).toNat := Nat.log2_two_pow
  have hexponent : e = e.toNat - (-e).toNat := by omega
  have hten : (10 : ℚ) ^ (-e).toNat = 5 ^ (-e).toNat * 2 ^ (-e).toNat := by
    rw [← mul_pow]
    norm_num
  rw [allDigits, decimalValue, hlog, value]
  conv_rhs => rw [hexponent, zpow_sub₀ (by norm_num)]
  rw [zpow_neg, zpow_natCast, zpow_natCast, zpow_natCast, hten]
  simp only [twoPow, Nat.pow_eq]
  push_cast
  field_simp

variable {x : Float} (hx : view x = .finite .positive m e hm)

include hx

theorem ofDecimal_allDigits :
    ofDecimal (allDigits (fraction x).1 (fraction x).2) = x := by
  have hfits := fits_view x
  rw [hx] at hfits
  apply view_injective
  rw [hx]
  refine view_ofDecimal hfits ?_
  rw [fraction, magnitude_of_view hx]
  exact decimalValue_allDigits m e

/-- **The shortest decimal of a positive double denotes it.** -/
theorem eq_ofDecimal_shortest : Kernel.eq (ofDecimal (shortest x)) x := by
  simp only [shortest, ofDecimal_trimmed]
  cases hcandidate : (List.range 17).findSome? fun n =>
      withDigits? x (fraction x).1 (fraction x).2 (n + 1) with
  | none =>
    -- seventeen digits are in fact enough, but all the digits denote the double anyway
    rw [Option.getD_none, ofDecimal_allDigits hx, eq_iff, hx]
    exact agree_self rfl
  | some d =>
    obtain ⟨n, -, hd⟩ := List.exists_of_findSome?_eq_some hcandidate
    exact eq_ofDecimal_of_withDigits? hd

theorem mantissa_shortest_ne_zero : (shortest x).mantissa ≠ 0 := by
  intro hzero
  have hread : ofDecimal (shortest x) = 0.0 := by
    rw [ofDecimal, Decimal.trimmed, if_pos hzero]
    rfl
  have heq := eq_ofDecimal_shortest hx
  rw [hread, eq_iff, hx] at heq
  rcases heq with ⟨h, -⟩ | ⟨-, h⟩
  · cases view_zero.symm.trans h
  · exact h

end Exact

theorem shortest_trimmed (x : Float) : (shortest x).trimmed = shortest x :=
  Decimal.trimmed_trimmed _

/-! ### Decimals have no sign -/

/-- A number without a minus, also before a zero. -/
def NonNegative : UnpackedFloat → Prop
  | .infinity s | .zero s | .finite s _ _ _ => s = .positive
  | .notANumber => False

theorem nonNegative_unpack {e : BitVec 11} (m : BitVec 52) (hinf : e ≠ -1#11) :
    NonNegative (UnpackedFloat.unpack format (packComponents format .positive e m)) := by
  unfold UnpackedFloat.unpack
  simp only [unpackMantissa_packComponents, unpackExponent_packComponents,
    unpackSign_packComponents, ofBitVec_toBitVec, if_neg hinf]
  split
  · split <;> rfl
  · rfl

theorem nonNegative_stored {f : UnpackedFloat} (h : NonNegative f) : NonNegative (stored f) := by
  cases f with
  | notANumber => exact h.elim
  | infinity s =>
    obtain rfl : s = .positive := h
    rfl
  | zero s =>
    obtain rfl : s = .positive := h
    rw [stored_zero]
    rfl
  | finite s m e hm =>
    obtain rfl : s = .positive := h
    unfold stored
    rw [pack_finite]
    split
    · rfl
    · split
      · refine nonNegative_unpack _ (ofNat_ne_of_lt (k := 2047) ?_ ?_) <;> omega
      · exact nonNegative_unpack _ (by decide)

theorem nonNegative_round (m : Nat) (e : Int) (accuracy : Accuracy) :
    NonNegative (roundWithAccuracy format .positive m e accuracy) := by
  simp only [roundWithAccuracy]
  split <;> rfl

theorem nonNegative_ofScientific (m : Nat) (e : Int) :
    NonNegative (UnpackedFloat.ofScientific format m e) := by
  rw [UnpackedFloat.ofScientific]
  split
  · rfl
  split
  · rfl
  split
  · rfl
  split
  · exact nonNegative_round _ _ _
  · exact nonNegative_round _ _ _

section Positive

variable {f : UnpackedFloat} (hf : NonNegative f) (m : Nat) (e : Int) (hm : 0 < m)

include hf

theorem nonNegative_mul :
    NonNegative (UnpackedFloat.mul format f (.finite .positive m e hm)) := by
  cases f with
  | notANumber => exact hf.elim
  | infinity s =>
    obtain rfl : s = .positive := hf
    rfl
  | zero s =>
    obtain rfl : s = .positive := hf
    rfl
  | finite s k x hk =>
    obtain rfl : s = .positive := hf
    exact nonNegative_round _ _ _

theorem nonNegative_div :
    NonNegative (UnpackedFloat.div format f (.finite .positive m e hm)) := by
  cases f with
  | notANumber => exact hf.elim
  | infinity s =>
    obtain rfl : s = .positive := hf
    rfl
  | zero s =>
    obtain rfl : s = .positive := hf
    rfl
  | finite s k x hk =>
    obtain rfl : s = .positive := hf
    exact nonNegative_round _ _ _

end Positive

theorem nonNegative_natural {m : Nat} (hlt : m < 2 ^ 53) :
    NonNegative (view m.toUInt64.toFloat) := by
  rcases Nat.eq_zero_or_pos m with rfl | hm
  · rfl
  · obtain ⟨a, e, ha, hview, -⟩ := isWhole_natural hm hlt
    rw [hview]
    rfl

/-- **What a decimal is read as has no minus.** -/
theorem nonNegative_ofDecimal (d : Decimal) : NonNegative (view (ofDecimal d)) := by
  rw [ofDecimal]
  generalize d.trimmed = d
  obtain ⟨m, e⟩ := d
  by_cases hsmall : m < 2 ^ 53 ∧ e.natAbs ≤ 22
  · obtain ⟨y, ⟨a, k, ha, hview, -⟩, hread⟩ := ofScientific_of_small hsmall
    have hm := nonNegative_natural hsmall.1
    simp only
    rw [hread]
    split
    · rw [view_div, hview]
      exact nonNegative_stored (nonNegative_div hm a k ha)
    · rw [view_mul, hview]
      exact nonNegative_stored (nonNegative_mul hm a k ha)
  · simp only
    rw [view_ofScientific_of_large hsmall]
    exact nonNegative_stored (nonNegative_ofScientific m e)

end Formula.Double
