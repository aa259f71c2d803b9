import Formula.Postfix.Evaluate
import Formula.Proofs.Number.Layout
import Formula.Proofs.Number.Shortest

/-!
The texts of doubles in a formula.  A double that is neither negative nor undefined is written as a
number that is read as the same double (`exists_text`); a negative one is written as a difference
from zero or with a minus before it (`exists_negative_text`).
-/

open Float.Model Float.Model.UnpackedFloat

namespace Formula.Double

/-! ### Signs -/

/-- A number below zero. -/
def IsNegative : UnpackedFloat → Prop
  | .infinity s | .finite s _ _ _ => s = .negative
  | .zero _ | .notANumber => False

theorem eq_positive {s : Sign} (h : s ≠ .negative) : s = .positive := by
  cases s with
  | positive => rfl
  | negative => exact absurd rfl h

theorem isNaN_iff {x : Float} : x.isNaN = true ↔ view x = .notANumber := by
  have hview : x.isNaN = (view x).isNaN := rfl
  rw [hview]
  cases view x <;> simp [UnpackedFloat.isNaN]

theorem lt_zero_iff {x : Float} : x < 0.0 ↔ IsNegative (view x) := by
  have hlt : Kernel.lt x 0.0 = true ↔ x < 0.0 := Iff.rfl
  rw [← hlt, lt_iff, view_zero]
  cases view x with
  | notANumber => simp [UnpackedFloat.compare, IsNegative]
  | zero s => simp [UnpackedFloat.compare, IsNegative]
  | infinity s => cases s <;> simp [UnpackedFloat.compare, IsNegative]
  | finite s m e => cases s <;> simp [UnpackedFloat.compare, IsNegative]

theorem NonNegative.not_isNegative {f : UnpackedFloat} (h : NonNegative f) : ¬ IsNegative f := by
  cases f with
  | notANumber => exact id
  | zero s => exact id
  | infinity s =>
    obtain rfl : s = .positive := h
    exact nofun
  | finite s m e =>
    obtain rfl : s = .positive := h
    exact nofun

theorem NonNegative.ne_negativeZero {f : UnpackedFloat} (h : NonNegative f) :
    f ≠ .zero .negative := by
  rintro rfl
  cases h

theorem nonNegative_abs {x : Float} (h : IsNegative (view x)) : NonNegative (view x.abs) := by
  rw [view_abs]
  refine nonNegative_stored ?_
  cases hview : view x with
  | notANumber =>
    rw [hview] at h
    exact h.elim
  | _ => rfl

theorem eq_of_isNaN {x : Float} (h : x.isNaN = true) : x = 0.0 / 0.0 :=
  view_injective (isNaN_iff.1 h)

/-- A number below zero is zero less its magnitude. -/
theorem zero_sub_abs {x : Float} (h : IsNegative (view x)) : 0.0 - x.abs = x := by
  cases hview : view x with
  | notANumber =>
    rw [hview] at h
    exact h.elim
  | zero s =>
    rw [hview] at h
    exact h.elim
  | infinity s =>
    rw [hview] at h
    obtain rfl : s = .negative := h
    have hx : x = -(1.0 / 0.0) := view_injective hview
    rw [hx]
    exact view_injective rfl
  | finite s m e hm =>
    rw [hview] at h
    obtain rfl : s = .negative := h
    have hfits : Fits (.finite .negative m e hm) := by
      have := fits_view x
      rwa [hview] at this
    refine view_injective ?_
    rw [view_sub, view_zero, view_abs_of_view hview, hview]
    exact stored_of_fits hfits

/-! ### Texts -/

/-- The text of a number is read as a double, up to the sign of a zero. -/
def Spells (t : NumberText) (x : Float) : Prop := Kernel.eq (ofDecimal t.decimal) x = true

/-- A number without the minus that a zero may have, which no text shows. -/
def dropZeroSign (x : Float) : Float := if x == 0.0 then 0.0 else x

theorem beq_zero_iff {x : Float} : x == 0.0 ↔ IsZero (view x) := by
  have heq : (x == 0.0) = Kernel.eq x 0.0 := rfl
  rw [heq, eq_iff, view_zero]
  exact ⟨Agree.isZero, fun hx => .inr ⟨hx, trivial⟩⟩

theorem dropZeroSign_of_ne {x : Float} (h : view x ≠ .zero .negative) : dropZeroSign x = x := by
  rw [dropZeroSign]
  split
  · rename_i hx
    obtain ⟨s, hs⟩ := (beq_zero_iff.1 hx).eq_zero
    cases s with
    | positive => exact (view_injective hs).symm
    | negative => exact absurd hs h
  · rfl

/-- The text of a number is read as this number, but for the sign of a zero. -/
theorem ofDecimal_of_spells {t : NumberText} {x : Float} (h : Spells t x) :
    ofDecimal t.decimal = dropZeroSign x := by
  have hsign := nonNegative_ofDecimal t.decimal
  rcases eq_iff.1 h with ⟨heq, -⟩ | ⟨hdecimal, hx⟩
  · rw [view_injective heq] at hsign ⊢
    exact (dropZeroSign_of_ne hsign.ne_negativeZero).symm
  · obtain ⟨s, hs⟩ := hdecimal.eq_zero
    rw [hs] at hsign
    obtain rfl : s = .positive := hsign
    rw [dropZeroSign, if_pos (beq_zero_iff.2 hx)]
    exact view_injective hs

theorem readScalar_chars (t : NumberText) :
    (readScalar (String.ofList t.chars) : Except Fault Float) = .ok (ofDecimal t.decimal) := by
  rw [readScalar, NumberText.ofString?_chars]
  rfl

theorem spells_zero : Spells .zero 0.0 := by
  have hdecimal : NumberText.zero.decimal = ⟨0, 0⟩ := by decide +kernel
  rw [Spells, hdecimal]
  decide +kernel

/-- A literal that is too large. -/
def hugeText : NumberText where
  whole := ['1']
  fraction := none
  exponent := some (none, ['9', '9', '9'])
  whole_ne_nil := List.cons_ne_nil _ _
  whole_digits := by simp
  fraction_digits := NumberText.zero.fraction_digits
  exponent_ne_nil := by
    rintro p ⟨⟩
    exact List.cons_ne_nil _ _
  exponent_digits := by
    rintro p ⟨⟩
    simp

theorem spells_hugeText : Spells hugeText (1.0 / 0.0) := by
  have hdecimal : hugeText.decimal = ⟨1, 999⟩ := by decide +kernel
  rw [Spells, hdecimal]
  decide +kernel

section Constants

variable {x : Float}

theorem constantText_of_isNaN (h : x.isNaN = true) :
    (toNumeral x).constantText = "(0/0)" := by
  rw [toNumeral, if_pos h]
  rfl

theorem toNumeral_finite {s : Sign} {m : Nat} {e : Int} {hm : 0 < m}
    (h : view x = .finite s m e hm) :
    toNumeral x = .finite (s == .negative) (shortest x.abs) := by
  have hnan : ¬ x.isNaN = true := by
    rw [isNaN_iff, h]
    exact nofun
  have hfinite : x.isFinite = true := by
    rw [isFinite_iff, h]
    rfl
  have hzero : ¬ (x == 0.0) = true := by
    show ¬ Kernel.eq x 0.0 = true
    rw [eq_iff, h, view_zero]
    rintro (⟨h, -⟩ | ⟨h, -⟩)
    · exact absurd h nofun
    · exact h
  rw [toNumeral, if_neg hnan, if_pos hfinite, if_neg hzero, isNegative_of_view h]

theorem toNumeral_zero {s : Sign} (h : view x = .zero s) :
    toNumeral x = .finite (s == .negative) ⟨0, 0⟩ := by
  cases s with
  | positive =>
    have hx : x = 0.0 := view_injective h
    rw [hx]
    decide +kernel
  | negative =>
    have hx : x = -0.0 := view_injective h
    rw [hx]
    decide +kernel

/-- The text of the magnitude of a finite double is read as that magnitude. -/
theorem exists_magnitude {s : Sign} {m : Nat} {e : Int} {hm : 0 < m}
    (h : view x = .finite s m e hm) : ∃ t : NumberText, Spells t x.abs ∧
      Numeral.magnitudeText (shortest x.abs) = String.ofList t.chars := by
  obtain ⟨cs, htext, t, rfl, ht⟩ := exists_magnitudeText (shortest_trimmed x.abs)
  refine ⟨t, ?_, htext⟩
  rw [Spells, ht]
  exact eq_ofDecimal_shortest (view_abs_of_view h)

/-- A finite number below zero is written with its minus right behind a parenthesis. -/
theorem constantText_of_negative {m : Nat} {e : Int} {hm : 0 < m}
    (h : view x = .finite .negative m e hm) :
    (toNumeral x).constantText = "(-" ++ Numeral.magnitudeText (shortest x.abs) ++ ")" := by
  have hmantissa := mantissa_shortest_ne_zero (view_abs_of_view h)
  have hsign : (Sign.negative == Sign.negative) = true := rfl
  rw [toNumeral_finite h, hsign]
  simp [Numeral.constantText, hmantissa]

/-- A number below zero is written as zero minus its magnitude, or with the zero left out. -/
theorem exists_negative_text (h : IsNegative (view x)) : ∃ t : NumberText, Spells t x.abs ∧
    ((toNumeral x).constantText = "(-" ++ String.ofList t.chars ++ ")" ∨
      (toNumeral x).constantText = "(0-" ++ String.ofList t.chars ++ ")") := by
  cases hview : view x with
  | notANumber =>
    rw [hview] at h
    exact h.elim
  | zero s =>
    rw [hview] at h
    exact h.elim
  | infinity s =>
    rw [hview] at h
    obtain rfl : s = .negative := h
    have hx : x = -(1.0 / 0.0) := view_injective hview
    rw [hx]
    exact ⟨hugeText, by exact spells_hugeText, .inr (by decide +kernel)⟩
  | finite s m e hm =>
    rw [hview] at h
    obtain rfl : s = .negative := h
    obtain ⟨t, ht, htext⟩ := exists_magnitude hview
    exact ⟨t, ht, .inl (by rw [constantText_of_negative hview, htext])⟩

/-- Any other number is written as a number, without a sign. -/
theorem exists_text (hnan : ¬ x.isNaN = true) (h : ¬ IsNegative (view x)) :
    ∃ t : NumberText, Spells t x ∧ (toNumeral x).constantText = String.ofList t.chars := by
  cases hview : view x with
  | notANumber => exact absurd (isNaN_iff.2 hview) hnan
  | infinity s =>
    obtain rfl : s = .positive := eq_positive fun hs => h (by rw [hview]; exact hs)
    have hx : x = 1.0 / 0.0 := view_injective hview
    rw [hx]
    exact ⟨hugeText, spells_hugeText, by decide +kernel⟩
  | zero s =>
    have hzero : Decimal.trimmed ⟨0, 0⟩ = ⟨0, 0⟩ := rfl
    obtain ⟨cs, htext, t, rfl, ht⟩ := exists_magnitudeText hzero
    refine ⟨t, ?_, ?_⟩
    · rw [Spells, ht, eq_iff, hview]
      exact agree_zero _ _
    · rw [toNumeral_zero hview, ← htext]
      simp [Numeral.constantText]
  | finite s m e hm =>
    obtain rfl : s = .positive := eq_positive fun hs => h (by rw [hview]; exact hs)
    have habs : x.abs = x := view_injective ((view_abs_of_view hview).trans hview.symm)
    obtain ⟨t, ht, htext⟩ := exists_magnitude hview
    rw [habs] at ht
    refine ⟨t, ht, ?_⟩
    rw [toNumeral_finite hview, ← htext]
    rfl

end Constants

end Formula.Double
