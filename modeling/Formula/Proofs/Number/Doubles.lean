import Formula.Proofs.Number.Arithmetic
import Formula.Proofs.Number.Laws

/-!
The doubles are lawful.  What a library computes has to be assumed (`Library.Regular`); the laws of
arithmetic, of the absolute value and of the step are proved from the views of the doubles.
-/

open Float.Model Float.Model.UnpackedFloat

namespace Formula

/-! ### Views -/

namespace Doubles

open Double

variable {lib : Library}

/-- A double taken apart. -/
def view (x : Doubles lib) : UnpackedFloat := Double.view x

section Views

variable (x y : Doubles lib)

theorem fits_view : Fits x.view := Double.fits_view x

theorem view_add : (x + y).view = stored (UnpackedFloat.add format x.view y.view) :=
  Double.view_add x y

theorem view_sub : (x - y).view = stored (UnpackedFloat.sub format x.view y.view) :=
  Double.view_sub x y

theorem view_mul : (x * y).view = stored (UnpackedFloat.mul format x.view y.view) :=
  Double.view_mul x y

theorem view_div : (x / y).view = stored (UnpackedFloat.div format x.view y.view) :=
  Double.view_div x y

theorem view_abs : view (Kernel.abs x) = stored (UnpackedFloat.abs x.view) := Double.view_abs x

theorem view_zero : (0 : Doubles lib).view = .zero .positive := Double.view_zero

theorem view_one : (1 : Doubles lib).view = unit .positive := Double.view_one

end Views

theorem eq_iff {x y : Doubles lib} : Kernel.eq x y ↔ Agree x.view y.view := Double.eq_iff

theorem isFinite_iff {x : Doubles lib} : Kernel.isFinite x ↔ x.view.isFinite :=
  Double.isFinite_iff x

theorem le_iff {x y : Doubles lib} :
    Kernel.le x y ↔ (x.view.compare y.view).any (·.isLE) := Double.le_iff

theorem lt_iff {x y : Doubles lib} :
    Kernel.lt x y ↔ x.view.compare y.view = some .lt := Double.lt_iff

/-! ### The numbers that simplification writes -/

theorem ofNumeral_ofInt_one (negative : Bool) :
    Double.ofNumeral (.finite negative (Decimal.mk 1 0).trimmed) =
      if negative then -1.0 else 1.0 := by
  have htrimmed : (Decimal.mk 1 0).trimmed = ⟨1, 0⟩ := by
    rw [Decimal.trimmed, if_neg (by decide), Decimal.trimZeros, dif_neg (by decide)]
  simp only [Double.ofNumeral, ofDecimal, htrimmed]
  rfl

theorem ofInt_zero : Literal.ofNumeral (Numeral.ofInt 0) = (0 : Doubles lib) := rfl

theorem ofInt_one : Literal.ofNumeral (Numeral.ofInt 1) = (1 : Doubles lib) :=
  ofNumeral_ofInt_one false

theorem view_negOne :
    (Literal.ofNumeral (Numeral.ofInt (-1)) : Doubles lib).view = unit .negative :=
  (congrArg Double.view (ofNumeral_ofInt_one true)).trans Double.view_negOne

/-! ### Equal operands -/

variable {x x' y y' : Doubles lib}

theorem eq_congr (hx : Kernel.eq x x') (y : Doubles lib) : Kernel.eq x' y = Kernel.eq x y := by
  rw [Bool.eq_iff_iff, eq_iff, eq_iff]
  exact ⟨(eq_iff.1 hx).trans, (eq_iff.1 hx).symm.trans⟩

theorem lt_congr (hx : Kernel.eq x x') : Kernel.lt x' 0 = Kernel.lt x 0 := by
  rw [Bool.eq_iff_iff, lt_iff, lt_iff, view_zero]
  rcases eq_iff.1 hx with ⟨h, -⟩ | ⟨h, h'⟩
  · rw [h]
  · obtain ⟨s, hs⟩ := h.eq_zero
    obtain ⟨s', hs'⟩ := h'.eq_zero
    rw [hs, hs']
    rfl

theorem le_congr (hx : Kernel.eq x x') : Kernel.le 0 x' = Kernel.le 0 x := by
  rw [Bool.eq_iff_iff, le_iff, le_iff, view_zero]
  rcases eq_iff.1 hx with ⟨h, -⟩ | ⟨h, h'⟩
  · rw [h]
  · obtain ⟨s, hs⟩ := h.eq_zero
    obtain ⟨s', hs'⟩ := h'.eq_zero
    rw [hs, hs']
    rfl

theorem isInteger_zero : (Double.integer? 0.0).isSome := by decide +kernel

theorem isInteger_negZero : (Double.integer? (-0.0)).isSome := by decide +kernel

theorem isInteger_of_isZero (h : IsZero x.view) : Kernel.isInteger x := by
  obtain ⟨s, hs⟩ := h.eq_zero
  cases s with
  | positive =>
    obtain rfl : x = (0.0 : Float) := view_injective (hs.trans rfl)
    exact isInteger_zero
  | negative =>
    obtain rfl : x = (-0.0 : Float) := view_injective (hs.trans rfl)
    exact isInteger_negZero

theorem isInteger_congr (hx : Kernel.eq x x') : Kernel.isInteger x' = Kernel.isInteger x := by
  rcases eq_iff.1 hx with ⟨h, -⟩ | ⟨h, h'⟩
  · rw [view_injective h]
  · rw [isInteger_of_isZero h, isInteger_of_isZero h']

theorem isFinite_congr (hx : Kernel.eq x x') : Kernel.isFinite x' = Kernel.isFinite x :=
  (eq_iff.1 hx).isFinite_eq.symm

theorem needsComplexPower_congr (hx : Kernel.eq x x') (hy : Kernel.eq y y') :
    Complex.needsComplexPower x' y' = Complex.needsComplexPower x y := by
  simp only [Complex.needsComplexPower, lt_congr hx, isFinite_congr hy, isInteger_congr hy]

theorem step_congr (hx : Kernel.eq x x') : Kernel.eq (Kernel.step x') (Kernel.step x) := by
  simp only [Kernel.step, le_congr hx]
  split
  · rw [eq_iff, view_one]
    exact agree_self rfl
  · rw [eq_iff, view_zero]
    exact agree_self rfl

theorem abs_congr (hx : Kernel.eq x x') (h : Kernel.isFinite (Kernel.abs x)) :
    Kernel.eq (Kernel.abs x') (Kernel.abs x) := by
  rw [eq_iff, view_abs, view_abs]
  rcases eq_iff.1 hx with ⟨hview, -⟩ | ⟨hzero, hzero'⟩
  · rw [← hview]
    exact agree_self h
  · obtain ⟨s, hs⟩ := hzero.eq_zero
    obtain ⟨s', hs'⟩ := hzero'.eq_zero
    rw [hs, hs']
    exact agree_stored_zero _ _

end Doubles

/-! ### Congruent libraries -/

/-- What is assumed of a library when only signs of zeros are lost: equal arguments have equal
results, as far as these are finite. -/
structure Library.Congruent (lib : Library) : Prop where
  power : ∀ x x' y y' : Doubles lib, Kernel.eq x x' → Kernel.eq y y' →
    Kernel.isFinite (Kernel.power x y) → Kernel.eq (Kernel.power x' y') (Kernel.power x y)
  func : ∀ f ∈ [Func.exp, .log, .sin, .cos, .tan, .sinh, .cosh, .tanh],
    ∀ x x' : Doubles lib, Kernel.eq x x' → Kernel.isFinite (f.onScalar x) →
      Kernel.eq (f.onScalar x') (f.onScalar x)

namespace Doubles

open Double

variable {lib : Library}

theorem operator_congr (hlib : lib.Congruent) (op : Operator) {x x' y y' : Doubles lib}
    (hx : Kernel.eq x x') (hy : Kernel.eq y y') (h : Kernel.isFinite (op.onScalars x y)) :
    Kernel.eq (op.onScalars x' y') (op.onScalars x y) := by
  cases op with
  | plus => exact eq_iff.2 (blind_add.agree (eq_iff.1 hx) (eq_iff.1 hy) h)
  | minus => exact eq_iff.2 (blind_sub.agree (eq_iff.1 hx) (eq_iff.1 hy) h)
  | times => exact eq_iff.2 (blind_mul.agree (eq_iff.1 hx) (eq_iff.1 hy) h)
  | divide => exact eq_iff.2 (blind_div.agree (eq_iff.1 hx) (eq_iff.1 hy) h)
  | power => exact hlib.power x x' y y' hx hy h

theorem func_congr (hlib : lib.Congruent) (f : Func) {x x' : Doubles lib} (hx : Kernel.eq x x')
    (h : Kernel.isFinite (f.onScalar x)) : Kernel.eq (f.onScalar x') (f.onScalar x) := by
  cases f with
  | abs => exact abs_congr hx h
  | step => exact step_congr hx
  | _ => exact hlib.func _ (by decide) x x' hx h

end Doubles

/-! ### Regular libraries -/

/-- What is assumed of a library: the powers zero and one, and that equal arguments have equal
results, as far as these are finite. -/
structure Library.Regular (lib : Library) : Prop where
  power_zero : ∀ x : Doubles lib, Kernel.isFinite x → Kernel.eq (Kernel.power x 0) 1
  power_one : ∀ x : Doubles lib, Kernel.isFinite x → Kernel.eq (Kernel.power x 1) x
  power_congr : ∀ x x' y y' : Doubles lib, Kernel.eq x x' → Kernel.eq y y' →
    Kernel.isFinite (Kernel.power x y) → Kernel.eq (Kernel.power x' y') (Kernel.power x y)
  func_congr : ∀ f ∈ [Func.exp, .log, .sin, .cos, .tan, .sinh, .cosh, .tanh],
    ∀ x x' : Doubles lib, Kernel.eq x x' → Kernel.isFinite (f.onScalar x) →
      Kernel.eq (f.onScalar x') (f.onScalar x)

theorem Library.Regular.congruent {lib : Library} (hlib : lib.Regular) : lib.Congruent where
  power := hlib.power_congr
  func := hlib.func_congr

namespace Doubles

open Double

variable {lib : Library}

/-- **The doubles over a regular library are lawful.** -/
theorem lawful (hlib : lib.Regular) : Kernel.Lawful (Doubles lib) where
  ofInt_zero := ofInt_zero
  ofInt_one := ofInt_one
  eq_self h := eq_iff.2 (agree_self h)
  eq_symm h := eq_iff.2 (eq_iff.1 h).symm
  eq_trans h h' := eq_iff.2 ((eq_iff.1 h).trans (eq_iff.1 h'))
  isFinite_of_eq h hx := (isFinite_congr h).trans hx
  operator_congr := operator_congr hlib.congruent
  func_congr := func_congr hlib.congruent
  needsComplexPower_congr := needsComplexPower_congr
  zero_add {x} h := by
    rw [eq_iff, view_add, view_zero]
    exact agree_zero_add (fits_view x) h
  add_zero {x} h := by
    rw [eq_iff, view_add, view_zero]
    exact agree_add_zero (fits_view x) h
  zero_sub {x} h := by
    rw [eq_iff, view_sub, view_mul, view_zero, view_negOne]
    exact agree_zero_sub (fits_view x) h
  sub_zero {x} h := by
    rw [eq_iff, view_sub, view_zero]
    exact agree_sub_zero (fits_view x) h
  zero_mul {x} h := by
    rw [eq_iff, view_mul, view_zero]
    exact agree_zero_mul h
  mul_zero {x} h := by
    rw [eq_iff, view_mul, view_zero]
    exact agree_mul_zero h
  one_mul {x} h := by
    rw [eq_iff, view_mul, view_one]
    exact agree_one_mul (fits_view x) h
  mul_one {x} h := by
    rw [eq_iff, view_mul, view_one]
    exact agree_mul_one (fits_view x) h
  zero_div {x} h := by
    rw [isFinite_iff, view_div, view_zero] at h
    rw [eq_iff, view_div, view_zero]
    exact agree_zero_div h
  power_one h := hlib.power_one _ h
  power_zero h := hlib.power_zero _ h

end Doubles

end Formula
