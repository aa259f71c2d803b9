import Formula.Proofs.Number.Constants

/-!
The texts of doubles on their own.  In every layout the text of a numeral denotes the numeral again
(`ofString?_text`), and the numeral of a double denotes the double, with the sign of a zero
(`ofNumeral_toNumeral`).  So a double that is written is read as itself (`readScalar_text`).
-/

namespace Formula

/-! ### Numerals -/

namespace Numeral

/-- A numeral in its one form: its digits do not end with a zero. -/
def IsTrimmed : Numeral → Prop
  | finite _ d => d.trimmed = d
  | infinite _ | undefined => True

/-- The text of a numeral denotes it. -/
theorem ofString?_text (layout : Layout) {n : Numeral} (h : n.IsTrimmed) :
    ofString? (layout.text n) = some n := by
  cases n with
  | finite negative d =>
    obtain ⟨t, ht, hd⟩ := writes_ofDecimal h layout
    rw [Layout.text, ← ht, NumberText.ofString?_signed, hd]
  | infinite negative =>
    have hwords : ofString? "-inf" = some (infinite true) ∧
        ofString? "inf" = some (infinite false) := by
      decide +kernel
    cases negative with
    | true => exact hwords.1
    | false => exact hwords.2
  | undefined =>
    have hword : ofString? "nan" = some undefined := by decide +kernel
    exact hword

end Numeral

/-! ### Doubles -/

open Float.Model Float.Model.UnpackedFloat

namespace Double

theorem toNumeral_infinity {x : Float} {s : Sign} (h : view x = .infinity s) :
    toNumeral x = .infinite (s == .negative) := by
  cases s with
  | positive =>
    have hx : x = 1.0 / 0.0 := view_injective h
    rw [hx]
    decide +kernel
  | negative =>
    have hx : x = -(1.0 / 0.0) := view_injective h
    rw [hx]
    decide +kernel

theorem exists_toNumeral {x : Float} (h : x.isFinite = true) :
    ∃ negative d, toNumeral x = .finite negative d := by
  rw [isFinite_iff] at h
  cases hview : view x with
  | notANumber =>
    rw [hview] at h
    cases h
  | infinity s =>
    rw [hview] at h
    cases h
  | zero s => exact ⟨_, _, toNumeral_zero hview⟩
  | finite s m e hm => exact ⟨_, _, toNumeral_finite hview⟩

theorem isTrimmed_toNumeral (x : Float) : (toNumeral x).IsTrimmed := by
  cases hview : view x with
  | notANumber =>
    rw [toNumeral, if_pos (isNaN_iff.2 hview)]
    trivial
  | infinity s =>
    rw [toNumeral_infinity hview]
    trivial
  | zero s =>
    rw [toNumeral_zero hview]
    rfl
  | finite s m e hm =>
    rw [toNumeral_finite hview]
    exact shortest_trimmed x.abs

theorem view_neg (x : Float) : view (-x) = stored (UnpackedFloat.neg (view x)) := rfl

/-- A number is its magnitude, with a minus if it has one. -/
theorem eq_abs_or_neg_abs {x : Float} {s : Sign} {m : Nat} {e : Int} {hm : 0 < m}
    (h : view x = .finite s m e hm) : (if s == .negative then -x.abs else x.abs) = x := by
  have hfits : Fits (.finite s m e hm) := by
    have := fits_view x
    rwa [h] at this
  refine view_injective ?_
  cases s with
  | positive => exact (view_abs_of_view h).trans h.symm
  | negative =>
    have hneg : view (-x.abs) = stored (.finite .negative m e hm) := by
      rw [view_neg, view_abs_of_view h]
      rfl
    exact hneg.trans ((stored_of_fits hfits).trans h.symm)

/-- The shortest decimal of a magnitude denotes it. -/
theorem ofDecimal_shortest {x : Float} {s : Sign} {m : Nat} {e : Int} {hm : 0 < m}
    (h : view x = .finite s m e hm) : ofDecimal (shortest x.abs) = x.abs := by
  have habs := view_abs_of_view h
  rcases eq_iff.1 (eq_ofDecimal_shortest habs) with ⟨heq, -⟩ | ⟨-, hzero⟩
  · exact view_injective heq
  · rw [habs] at hzero
    exact hzero.elim

/-- **The numeral of a double denotes it**, with the sign of a zero. -/
theorem ofNumeral_toNumeral (x : Float) : ofNumeral (toNumeral x) = x := by
  cases hview : view x with
  | notANumber =>
    have hnan := isNaN_iff.2 hview
    rw [toNumeral, if_pos hnan]
    exact (eq_of_isNaN hnan).symm
  | infinity s =>
    rw [toNumeral_infinity hview]
    cases s with
    | positive => exact (view_injective hview).symm
    | negative => exact (view_injective hview).symm
  | zero s =>
    rw [toNumeral_zero hview]
    cases s with
    | positive => exact (view_injective hview).symm
    | negative => exact (view_injective hview).symm
  | finite s m e hm =>
    rw [toNumeral_finite hview, ofNumeral, ofDecimal_shortest hview, eq_abs_or_neg_abs hview]

end Double

/-- **A double that is written is read as itself**, over every library. -/
theorem readScalar_text {lib : Library} (layout : Layout) (x : Doubles lib) :
    readScalar (layout.text (Literal.toNumeral x)) = .ok x := by
  have htext : Numeral.ofString? (layout.text (Literal.toNumeral x)) =
      some (Literal.toNumeral x) :=
    Numeral.ofString?_text layout (Double.isTrimmed_toNumeral x)
  rw [readScalar, htext]
  exact congrArg Except.ok (Double.ofNumeral_toNumeral x)

end Formula
