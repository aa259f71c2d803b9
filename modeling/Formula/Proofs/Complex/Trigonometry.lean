import Mathlib.Tactic.LinearCombination
import Formula.Proofs.Complex.Polar

/-!
The laws of the complex functions that are made of the exponential, over exact scalars whose
functions obey the laws of the exponential and of the circle (`Elementary.IsExponential`).  The
exponentials of opposite numbers are inverse to each other, so half their sum and half their
difference lie on a hyperbola (`Complex.hyperbola`).  The cosine and the sine are a hyperbolic
cosine and sine of the number turned by a quarter.

Main statement: the circle, the hyperbola, the exponential of a sum, the tangent as a quotient, and
the interval of an event that a boost keeps (`Elementary.IsExponential.complex_laws`).
-/

namespace Formula

variable {R : Type} [Field R] [LinearOrder R] {functions : Elementary R}

/-- The laws of the exponential, of the circle and of the hyperbola, for the functions of
scalars. -/
structure Elementary.IsExponential (functions : Elementary R) : Prop where
  exp_zero : functions.exp 0 = 1
  exp_add : ∀ x y, functions.exp (x + y) = functions.exp x * functions.exp y
  cos_zero : functions.cos 0 = 1
  sin_zero : functions.sin 0 = 0
  cos_add : ∀ x y, functions.cos (x + y) =
    functions.cos x * functions.cos y - functions.sin x * functions.sin y
  sin_add : ∀ x y, functions.sin (x + y) =
    functions.sin x * functions.cos y + functions.cos x * functions.sin y
  cosh_sinh : ∀ x, functions.cosh x * functions.cosh x - functions.sinh x * functions.sinh x = 1

namespace Complex

/-! ### The exponential -/

section Exponential

variable (h : functions.IsExponential) (z w : Complex (Exact functions))

include h

theorem exp_add : (z + w).exp = z.exp * w.exp := by
  have hexp : Kernel.exp (z.re + w.re) = Kernel.exp z.re * Kernel.exp w.re := h.exp_add _ _
  have hcos : Kernel.cos (z.im + w.im) =
      Kernel.cos z.im * Kernel.cos w.im - Kernel.sin z.im * Kernel.sin w.im := h.cos_add _ _
  have hsin : Kernel.sin (z.im + w.im) =
      Kernel.sin z.im * Kernel.cos w.im + Kernel.cos z.im * Kernel.sin w.im := h.sin_add _ _
  simp only [exp, add_def, mul_def, hexp, hcos, hsin]
  exact Complex.ext (by ring) (by ring)

theorem exp_zero : (0 : Complex (Exact functions)).exp = 1 := by
  have hexp : Kernel.exp (0 : Exact functions) = 1 := h.exp_zero
  have hcos : Kernel.cos (0 : Exact functions) = 1 := h.cos_zero
  have hsin : Kernel.sin (0 : Exact functions) = 0 := h.sin_zero
  simp only [exp, zero_def, one_def, hexp, hcos, hsin]
  exact Complex.ext (by ring) (by ring)

theorem exp_mul_exp_neg : z.exp * (-z).exp = 1 := by
  rw [← exp_add h, add_neg_cancel, exp_zero h]

end Exponential

/-! ### Halves and quarter turns -/

theorem i_mul_i : (i : Complex (Exact functions)) * i = -1 := by
  simp only [i, ofImag, mul_def, one_def, neg_def]
  exact Complex.ext (by ring) (by ring)

theorem ofImag_neg (y : Exact functions) : ofImag (-y) = -(ofReal y * i) := by
  simp only [i, ofImag, ofReal, mul_def, neg_def]
  exact Complex.ext (by ring) (by ring)

section Halves

variable [IsStrictOrderedRing R]

theorem half_add_half :
    (ofReal Kernel.half + ofReal Kernel.half : Complex (Exact functions)) = 1 := by
  have htwo : (Kernel.two : Exact functions) ≠ 0 := by
    rw [Kernel.two, one_add_one_eq_two]
    exact two_ne_zero
  have hhalf : (Kernel.half + Kernel.half : Exact functions) = 1 := by
    rw [Kernel.half, ← add_div]
    exact div_self htwo
  rw [← ofReal_add, hhalf]
  rfl

/-- Half the sum and half the difference of two numbers inverse to each other lie on a
hyperbola. -/
theorem hyperbola {u v : Complex (Exact functions)} (h : u * v = 1) :
    ofReal Kernel.half * (u + v) * (ofReal Kernel.half * (u + v)) -
      ofReal Kernel.half * (u - v) * (ofReal Kernel.half * (u - v)) = 1 := by
  have hhalf : (ofReal Kernel.half + ofReal Kernel.half : Complex (Exact functions)) = 1 :=
    half_add_half
  generalize (ofReal Kernel.half : Complex (Exact functions)) = half at hhalf ⊢
  linear_combination 4 * half * half * h + (2 * half + 1) * hhalf

end Halves

/-! ### The hyperbola, the circle and the tangent -/

section Turned

variable (z : Complex (Exact functions))

theorem ofImag_neg_one_mul : ofImag (-1) * z = ofReal (-1) * (i * z) := by
  have hone : (ofReal 1 : Complex (Exact functions)) = 1 := rfl
  rw [ofImag_neg, hone, ofReal_neg_one_mul]
  ring

/-- The cosine is the hyperbolic cosine of the number turned by a quarter. -/
theorem cos_eq_cosh : z.cos = (i * z).cosh := by
  rw [cos, cosh, ofImag_neg_one_mul]
  rfl

/-- The sine is the hyperbolic sine of the number turned by a quarter, turned back. -/
theorem sin_eq_sinh : z.sin = -(i * (i * z).sinh) := by
  rw [sin, sinh, ofImag_neg_one_mul, ofImag_neg]
  show -(_ * i) * (exp (i * z) - _) = _
  ring

end Turned

section Laws

variable [IsStrictOrderedRing R] (h : functions.IsExponential) (z : Complex (Exact functions))

include h

theorem cosh_sinh : z.cosh * z.cosh - z.sinh * z.sinh = 1 := by
  rw [cosh, sinh, ofReal_neg_one_mul]
  exact hyperbola (exp_mul_exp_neg h z)

theorem cos_sin : z.cos * z.cos + z.sin * z.sin = 1 := by
  have hsquare : (i : Complex (Exact functions)) * i = -1 := i_mul_i
  rw [cos_eq_cosh, sin_eq_sinh]
  linear_combination cosh_sinh h (i * z) + (i * z).sinh * (i * z).sinh * hsquare

end Laws

end Complex

/-! ### Boosts -/

namespace Numeric

/-- The interval of an event: the square of its time less the square of its place. -/
def interval {K : Type} [Kernel K] (event : Numeric K × Numeric K) : Numeric K :=
  event.1 * event.1 - event.2 * event.2

theorem isComplex_interval_boost {K : Type} [Kernel K] (rapidity t x : Numeric K) :
    (interval (boost rapidity t x)).isComplex =
      (rapidity.isComplex || (interval (t, x)).isComplex) := by
  cases rapidity <;> cases t <;> cases x <;> rfl

theorem promote_interval (t x : Numeric (Exact functions)) :
    (interval (t, x)).promote = t.promote * t.promote - x.promote * x.promote := by
  rw [interval, promote_sub, promote_mul, promote_mul]

variable [IsStrictOrderedRing R] (h : functions.IsExponential)
  (rapidity t x : Numeric (Exact functions))

include h

/-- The hyperbola, for scalars and complex numbers alike. -/
theorem promote_cosh_sinh :
    rapidity.cosh.promote * rapidity.cosh.promote -
      rapidity.sinh.promote * rapidity.sinh.promote = 1 := by
  cases rapidity with
  | complex z => exact Complex.cosh_sinh h z
  | real x =>
    have hscalar : Kernel.cosh x * Kernel.cosh x - Kernel.sinh x * Kernel.sinh x = 1 :=
      h.cosh_sinh x
    show Complex.ofReal (Kernel.cosh x) * Complex.ofReal (Kernel.cosh x) -
      Complex.ofReal (Kernel.sinh x) * Complex.ofReal (Kernel.sinh x) = 1
    rw [← Complex.ofReal_mul, ← Complex.ofReal_mul, ← Complex.ofReal_sub, hscalar]
    rfl

theorem same_interval_boost : (interval (boost rapidity t x)).Same (interval (t, x)) := by
  have hcosh := promote_cosh_sinh h rapidity
  rw [Same, boost, promote_interval, promote_interval]
  simp only [promote_add, promote_mul]
  linear_combination (t.promote * t.promote - x.promote * x.promote) * hcosh

/-- A boost keeps the interval of an event; a complex rapidity takes it to the complex plane. -/
theorem interval_boost :
    interval (boost rapidity t x) =
      if rapidity.isComplex then .complex (interval (t, x)).promote else interval (t, x) := by
  have hsame := same_interval_boost h rapidity t x
  have hkind := isComplex_interval_boost rapidity t x
  cases hrapidity : rapidity.isComplex with
  | true =>
    rw [hrapidity, Bool.true_or] at hkind
    exact eq_of_same hsame hkind
  | false =>
    rw [hrapidity, Bool.false_or] at hkind
    exact eq_of_same hsame hkind

end Numeric

/-! ### The laws -/

namespace Elementary

/-- **The laws of the complex functions**, from those of the functions of scalars: every complex
number has its cosine and sine on the unit circle and its hyperbolic cosine and sine on the unit
hyperbola, the exponential takes sums to products, and the tangent times the cosine is the sine
where the cosine is not zero.  A boost keeps the interval of an event, whichever of the rapidity,
the time and the place are complex; the interval is a complex number then if the rapidity is. -/
theorem IsExponential.complex_laws [IsStrictOrderedRing R] (h : functions.IsExponential) :
    (∀ z w : Complex (Exact functions),
      z.cos * z.cos + z.sin * z.sin = 1 ∧ z.cosh * z.cosh - z.sinh * z.sinh = 1 ∧
        (z + w).exp = z.exp * w.exp ∧ (z.cos ≠ 0 → z.tan * z.cos = z.sin)) ∧
    ∀ rapidity t x : Numeric (Exact functions),
      Numeric.interval (rapidity.boost t x) =
        if rapidity.isComplex then .complex (Numeric.interval (t, x)).promote
        else Numeric.interval (t, x) := by
  refine ⟨fun z w => ⟨?circle, ?hyperbola, ?exponential, ?tangent⟩, ?boost⟩
  case circle => exact Complex.cos_sin h z
  case hyperbola => exact Complex.cosh_sinh h z
  case exponential => exact Complex.exp_add h z w
  case tangent => exact Complex.div_mul_cancel z.sin
  case boost => exact Numeric.interval_boost h

theorem isExponential_real : Elementary.real.IsExponential where
  exp_zero := Real.exp_zero
  exp_add := Real.exp_add
  cos_zero := Real.cos_zero
  sin_zero := Real.sin_zero
  cos_add := Real.cos_add
  sin_add := Real.sin_add
  cosh_sinh x := by
    rw [← sq, ← sq]
    exact Real.cosh_sq_sub_sinh_sq x

/-- The tangent of the imaginary unit, and the boost of a real time and a complex place by a
rapidity that is complex. -/
theorem complex_laws_i :
    Elementary.real.IsExponential ∧ (Complex.i : Complex Reals).cos ≠ 0 ∧
      (Complex.i : Complex Reals).tan * Complex.i.cos = Complex.i.sin ∧
      Numeric.interval (Numeric.boost (.complex .i) (.real 1) (.complex (.i : Complex Reals))) =
        .complex (Numeric.interval (.real 1, .complex .i)).promote := by
  have hpos : 0 < (Complex.i : Complex Reals).cos.re := by
    show 0 < (1 / (1 + 1) : ℝ) * (Real.exp (0 * 0 - 1 * 1) * Real.cos (0 * 1 + 1 * 0) +
      Real.exp (0 * 0 - -1 * 1) * Real.cos (0 * 1 + -1 * 0)) -
      0 * (Real.exp (0 * 0 - 1 * 1) * Real.sin (0 * 1 + 1 * 0) +
        Real.exp (0 * 0 - -1 * 1) * Real.sin (0 * 1 + -1 * 0))
    simp only [mul_zero, zero_mul, add_zero, sub_zero, Real.cos_zero, mul_one]
    positivity
  have hcos : (Complex.i : Complex Reals).cos ≠ 0 := fun hzero =>
    hpos.ne' (congrArg Complex.re hzero)
  obtain ⟨hplane, hboost⟩ := isExponential_real.complex_laws
  obtain ⟨-, -, -, htangent⟩ := hplane .i .i
  exact ⟨isExponential_real, hcos, htangent hcos,
    hboost (.complex .i) (.real 1) (.complex .i)⟩

end Elementary

end Formula
