import Formula.Proofs.Number.Doubles
import Formula.Proofs.Number.Shortest

/-!
The finite doubles as rational numbers.  A double is an integer for the kernel exactly if it is
finite and its value is integral (`integer?_eq_some`).
-/

open Float.Model Float.Model.UnpackedFloat

namespace Formula.Double

/-- The exact value of a finite number. -/
def rational? : UnpackedFloat → Option ℚ
  | .zero _ => some 0
  | .finite .positive m e _ => some (value m e)
  | .finite .negative m e _ => some (-value m e)
  | _ => none

/-! ### Whole numbers -/

/-- A value is a natural number exactly if its denominator divides its numerator. -/
theorem value_eq_natCast {m k : Nat} {e : Int} : value m e = k ↔
    m * twoPow e.toNat % twoPow (-e).toNat = 0 ∧ m * twoPow e.toNat / twoPow (-e).toNat = k := by
  have hden : 0 < twoPow (-e).toNat := Nat.two_pow_pos _
  have hexponent : e = e.toNat - (-e).toNat := by omega
  have hvalue : value m e = k ↔ m * twoPow e.toNat = k * twoPow (-e).toNat := by
    rw [value, hexponent, zpow_sub₀ (by norm_num), zpow_natCast, zpow_natCast, ← mul_div_assoc,
      div_eq_iff (by positivity), ← hexponent]
    simp only [twoPow, Nat.pow_eq]
    exact_mod_cast Iff.rfl
  rw [hvalue]
  constructor
  · intro h
    rw [h, Nat.mul_mod_left, Nat.mul_div_cancel k hden]
    exact ⟨rfl, rfl⟩
  · rintro ⟨hmod, rfl⟩
    exact (Nat.div_mul_cancel (Nat.dvd_of_mod_eq_zero hmod)).symm

theorem value_eq_intCast {m : Nat} {e n : Int} : value m e = n ↔
    m * twoPow e.toNat % twoPow (-e).toNat = 0 ∧
      ((m * twoPow e.toNat / twoPow (-e).toNat : Nat) : Int) = n := by
  have hvalue : 0 ≤ value m e := by
    unfold value
    positivity
  constructor
  · intro h
    have hn : 0 ≤ n := by exact_mod_cast h ▸ hvalue
    obtain ⟨k, rfl⟩ := Int.eq_ofNat_of_zero_le hn
    obtain ⟨hmod, hdiv⟩ := value_eq_natCast.1 (by exact_mod_cast h)
    exact ⟨hmod, congrArg _ hdiv⟩
  · rintro ⟨hmod, rfl⟩
    exact_mod_cast value_eq_natCast.2 ⟨hmod, rfl⟩

/-- The integer of a double with a significand. -/
theorem integer?_of_view {x : Float} {s : Sign} {m : Nat} {e : Int} {hm : 0 < m}
    (h : view x = .finite s m e hm) : integer? x =
      if m * twoPow e.toNat % twoPow (-e).toNat = 0 then
        let k := m * twoPow e.toNat / twoPow (-e).toNat
        some (if s == .negative then -(k : Int) else k)
      else none := by
  have hfinite : x.isFinite = true := by
    rw [isFinite_iff, h]
    rfl
  rw [integer?, isNegative_of_view h]
  simp [fraction, magnitude_of_view h, hfinite]

theorem integer?_of_not_isFinite {x : Float} (h : ¬ (view x).isFinite) : integer? x = none := by
  have hinfinite : x.isFinite = false := by
    rw [← Bool.not_eq_true, isFinite_iff]
    exact h
  simp [integer?, hinfinite]

theorem integer?_of_isZero {x : Float} (h : IsZero (view x)) : integer? x = some 0 := by
  obtain ⟨s, hs⟩ := h.eq_zero
  have hzeros : integer? 0.0 = some 0 ∧ integer? (-0.0) = some 0 := by decide +kernel
  cases s with
  | positive =>
    obtain rfl : x = 0.0 := view_injective hs
    exact hzeros.1
  | negative =>
    obtain rfl : x = -0.0 := view_injective hs
    exact hzeros.2

/-- **The integer of a double is its exact value.** -/
theorem integer?_eq_some {x : Float} {n : Int} :
    integer? x = some n ↔ rational? (view x) = some (n : ℚ) := by
  cases h : view x with
  | notANumber => simp [integer?_of_not_isFinite (x := x) (by rw [h]; decide), rational?]
  | infinity s => simp [integer?_of_not_isFinite (x := x) (by rw [h]; exact nofun), rational?]
  | zero s =>
    rw [integer?_of_isZero (by rw [h]; trivial)]
    simp only [rational?, Option.some_inj]
    exact_mod_cast Iff.rfl
  | finite s m e hm =>
    rw [integer?_of_view h]
    cases s with
    | positive =>
      simp only [rational?, Option.some_inj, value_eq_intCast]
      simp
    | negative =>
      simp only [rational?, Option.some_inj, neg_eq_iff_eq_neg, ← Int.cast_neg, value_eq_intCast]
      simp [neg_eq_iff_eq_neg]

end Formula.Double
