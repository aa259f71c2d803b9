import Mathlib.Analysis.SpecialFunctions.Pow.Real
import Mathlib.Analysis.SpecialFunctions.Trigonometric.Angle
import Mathlib.Analysis.SpecialFunctions.Trigonometric.Arctan
import Formula.Proofs.Complex.Ring

/-!
Complex numbers over the reals in polar form.  Where a point lies decides how its angle is made of
an arctangent (`Points`); in each of the five cases the angle lies in one turn around the origin and
leads back to the point, as far as the point is away.

Main statement: the argument is the one angle above `-π` and up to `π` that leads to the number, and
the exponential takes the logarithm of a number back to it (`Complex.polar_form`).
-/

namespace Formula

open Real (pi arctan)

/-- The functions of the reals. -/
noncomputable def Elementary.real : Elementary ℝ where
  power x y := x ^ y
  exp := Real.exp
  log := Real.log
  sin := Real.sin
  cos := Real.cos
  tan := Real.tan
  sinh := Real.sinh
  cosh := Real.cosh
  tanh := Real.tanh
  atan := Real.arctan
  sqrt := Real.sqrt
  pi := Real.pi

/-- The reals as scalars. -/
abbrev Reals : Type := Exact Elementary.real

/-! ### The angle of a point -/

/-- The point with coordinates `x` and `y` has the angle `θ`, by where it lies. -/
inductive Points : ℝ → ℝ → ℝ → Prop
  | up {y} (hy : 0 ≤ y) : Points 0 y (pi / 2)
  | down {y} (hy : y < 0) : Points 0 y (-pi / 2)
  | right {x y} (hx : 0 < x) : Points x y (arctan (y / x))
  | leftAbove {x y} (hx : x < 0) (hy : 0 ≤ y) : Points x y (pi + arctan (y / x))
  | leftBelow {x y} (hx : x < 0) (hy : y < 0) : Points x y (-pi + arctan (y / x))

theorem points_argument (x y : Reals) : Points x y (Complex.argument (K := Reals) x y) := by
  have htwo : (Kernel.two : Reals) = (2 : ℝ) := one_add_one_eq_two
  simp only [Complex.argument, Exact.eq_iff, Exact.lt_iff, Exact.le_iff, htwo]
  split_ifs with hx hy hneg hy
  · subst hx
    exact .up hy
  · subst hx
    exact .down (not_le.1 hy)
  · exact .leftAbove hneg hy
  · exact .leftBelow hneg (not_le.1 hy)
  · exact .right (lt_of_le_of_ne (not_lt.1 hneg) (Ne.symm hx))

namespace Points

variable {x y θ : ℝ}

theorem mem_Ioc (h : Points x y θ) : θ ∈ Set.Ioc (-pi) pi := by
  have hpi := Real.pi_pos
  have hlow := Real.neg_pi_div_two_lt_arctan (y / x)
  have hhigh := Real.arctan_lt_pi_div_two (y / x)
  cases h with
  | up hy => constructor <;> linarith
  | down hy => constructor <;> linarith
  | right hx => constructor <;> linarith
  | leftAbove hx hy =>
    have hangle : arctan (y / x) ≤ 0 :=
      Real.arctan_le_zero.2 (div_nonpos_of_nonneg_of_nonpos hy hx.le)
    constructor <;> linarith
  | leftBelow hx hy =>
    have hangle : 0 < arctan (y / x) := Real.arctan_pos.2 (div_pos_of_neg_of_neg hy hx)
    constructor <;> linarith

/-- The distance of a point off the vertical axis by the slope towards it. -/
theorem sqrt_eq (hx : x ≠ 0) : √(x * x + y * y) = |x| * √(1 + (y / x) ^ 2) := by
  have hsum : x * x + y * y = x ^ 2 * (1 + (y / x) ^ 2) := by
    field_simp
  rw [hsum, Real.sqrt_mul (sq_nonneg x), Real.sqrt_sq_eq_abs]

theorem sqrt_mul_cos_arctan (hx : x ≠ 0) : √(x * x + y * y) * Real.cos (arctan (y / x)) = |x| := by
  have hroot : √(1 + (y / x) ^ 2) ≠ 0 := by positivity
  rw [sqrt_eq hx, Real.cos_arctan, mul_assoc, mul_one_div_cancel hroot, mul_one]

theorem sqrt_mul_sin_arctan (hx : x ≠ 0) :
    √(x * x + y * y) * Real.sin (arctan (y / x)) = |x| * (y / x) := by
  have hroot : √(1 + (y / x) ^ 2) ≠ 0 := by positivity
  rw [sqrt_eq hx, Real.sin_arctan, mul_assoc, mul_div_cancel₀ _ hroot]

/-- A point is found at its distance in the direction of its angle. -/
theorem polar (h : Points x y θ) :
    √(x * x + y * y) * Real.cos θ = x ∧ √(x * x + y * y) * Real.sin θ = y := by
  cases h with
  | up hy =>
    rw [zero_mul, zero_add, Real.sqrt_mul_self hy, Real.cos_pi_div_two, Real.sin_pi_div_two]
    exact ⟨mul_zero y, mul_one y⟩
  | down hy =>
    have hroot : √(0 * 0 + y * y) = -y := by
      rw [zero_mul, zero_add, Real.sqrt_mul_self_eq_abs, abs_of_neg hy]
    rw [hroot, neg_div, Real.cos_neg, Real.sin_neg, Real.cos_pi_div_two, Real.sin_pi_div_two]
    exact ⟨mul_zero _, by ring⟩
  | right hx =>
    rw [sqrt_mul_cos_arctan hx.ne', sqrt_mul_sin_arctan hx.ne', abs_of_pos hx]
    exact ⟨rfl, mul_div_cancel₀ y hx.ne'⟩
  | leftAbove hx hy =>
    rw [add_comm pi, Real.cos_add_pi, Real.sin_add_pi, mul_neg, mul_neg, sqrt_mul_cos_arctan hx.ne,
      sqrt_mul_sin_arctan hx.ne, abs_of_neg hx, neg_neg, neg_mul, neg_neg]
    exact ⟨rfl, mul_div_cancel₀ y hx.ne⟩
  | leftBelow hx hy =>
    rw [neg_add_eq_sub, Real.cos_sub_pi, Real.sin_sub_pi, mul_neg, mul_neg,
      sqrt_mul_cos_arctan hx.ne, sqrt_mul_sin_arctan hx.ne, abs_of_neg hx, neg_neg, neg_mul,
      neg_neg]
    exact ⟨rfl, mul_div_cancel₀ y hx.ne⟩

end Points

/-- One angle of a turn has a given cosine and sine. -/
theorem eq_of_cos_sin {θ φ : ℝ} (hθ : θ ∈ Set.Ioc (-pi) pi) (hφ : φ ∈ Set.Ioc (-pi) pi)
    (hcos : Real.cos θ = Real.cos φ) (hsin : Real.sin θ = Real.sin φ) : θ = φ := by
  have hangle : (θ : Real.Angle) = φ := Real.Angle.cos_sin_inj hcos hsin
  rw [← Real.Angle.toReal_coe_eq_self_iff_mem_Ioc.2 hθ, hangle,
    Real.Angle.toReal_coe_eq_self_iff_mem_Ioc.2 hφ]

namespace Complex

variable (z : Complex Reals)

theorem abs_pos {z : Complex Reals} (h : z ≠ 0) : 0 < z.abs := by
  have hnonneg : 0 ≤ z.abs2 := add_nonneg (mul_self_nonneg z.re) (mul_self_nonneg z.im)
  exact Real.sqrt_pos.2 (lt_of_le_of_ne hnonneg (abs2_ne_zero h).symm)

theorem arg_mem_Ioc : z.arg ∈ Set.Ioc (-Kernel.pi) Kernel.pi :=
  (points_argument z.re z.im).mem_Ioc

theorem abs_mul_cos_arg : z.abs * Kernel.cos z.arg = z.re :=
  (points_argument z.re z.im).polar.1

theorem abs_mul_sin_arg : z.abs * Kernel.sin z.arg = z.im :=
  (points_argument z.re z.im).polar.2

theorem exp_log {z : Complex Reals} (h : z ≠ 0) : z.log.exp = z := by
  have hscale : Kernel.exp (Kernel.log z.abs) = z.abs := Real.exp_log (abs_pos h)
  simp only [exp, log, hscale, abs_mul_cos_arg, abs_mul_sin_arg]

theorem eq_arg {z : Complex Reals} (h : z ≠ 0) {θ : Reals}
    (hturn : θ ∈ Set.Ioc (-Kernel.pi) Kernel.pi) (hre : z.abs * Kernel.cos θ = z.re)
    (him : z.abs * Kernel.sin θ = z.im) : θ = z.arg := by
  have habs : z.abs ≠ 0 := (abs_pos h).ne'
  have hcos : Kernel.cos θ = Kernel.cos z.arg :=
    mul_left_cancel₀ habs (hre.trans z.abs_mul_cos_arg.symm)
  have hsin : Kernel.sin θ = Kernel.sin z.arg :=
    mul_left_cancel₀ habs (him.trans z.abs_mul_sin_arg.symm)
  exact eq_of_cos_sin hturn z.arg_mem_Ioc hcos hsin

theorem arg_zero : (0 : Complex Reals).arg = Kernel.pi / Kernel.two := by
  rw [arg, zero_def, argument, if_pos (Exact.eq_iff.2 rfl), if_pos (Exact.le_iff.2 le_rfl)]

/-- **The argument is the angle of the polar form, on the whole plane.**  It lies above `-π` and
up to `π`; together with the absolute value it gives the number back, and no other angle of the
turn does unless the number is zero.  The exponential takes the logarithm of a number other than
zero back to the number.  At zero the argument is a quarter turn. -/
theorem polar_form (z : Complex Reals) :
    z.arg ∈ Set.Ioc (-Kernel.pi) Kernel.pi ∧
      z.abs * Kernel.cos z.arg = z.re ∧ z.abs * Kernel.sin z.arg = z.im ∧
      (z ≠ 0 → (Numeric.complex z).log.exp = .complex z ∧
        ∀ θ ∈ Set.Ioc (-Kernel.pi) Kernel.pi,
          z.abs * Kernel.cos θ = z.re → z.abs * Kernel.sin θ = z.im → θ = z.arg) ∧
      (z = 0 → z.arg = Kernel.pi / Kernel.two) := by
  refine ⟨z.arg_mem_Ioc, z.abs_mul_cos_arg, z.abs_mul_sin_arg, ?_, ?_⟩
  · intro hne
    exact ⟨congrArg Numeric.complex (exp_log hne), fun θ hturn hre him => eq_arg hne hturn hre him⟩
  · rintro rfl
    exact arg_zero

/-- On the negative half of the real axis the angle is the upper end of the turn. -/
theorem polar_form_neg_one :
    (⟨-1, 0⟩ : Complex Reals) ≠ 0 ∧ (⟨-1, 0⟩ : Complex Reals).arg = Kernel.pi ∧
      (Numeric.complex (⟨-1, 0⟩ : Complex Reals)).log.exp = .complex ⟨-1, 0⟩ := by
  have hne : (⟨-1, 0⟩ : Complex Reals) ≠ 0 := fun h =>
    neg_ne_zero.2 one_ne_zero (congrArg Complex.re h)
  have hpi : (Kernel.pi : Reals) ∈ Set.Ioc (-Kernel.pi : Reals) Kernel.pi :=
    ⟨neg_lt_self Real.pi_pos, le_rfl⟩
  have habs : (⟨-1, 0⟩ : Complex Reals).abs = 1 := by
    show √((-1) * (-1) + 0 * 0) = 1
    norm_num
  have hcos : (Kernel.cos Kernel.pi : Reals) = -1 := Real.cos_pi
  have hsin : (Kernel.sin Kernel.pi : Reals) = 0 := Real.sin_pi
  obtain ⟨-, -, -, hform, -⟩ := polar_form ⟨-1, 0⟩
  obtain ⟨hlog, hunique⟩ := hform hne
  refine ⟨hne, (hunique Kernel.pi hpi ?_ ?_).symm, hlog⟩
  · rw [habs, hcos, one_mul]
  · rw [hsin, mul_zero]

end Complex

end Formula
