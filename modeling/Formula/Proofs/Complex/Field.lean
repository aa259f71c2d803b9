import Formula.Proofs.Complex.Polar

/-!
Mixed arithmetic over exact scalars.  Taking values to the complex plane respects all four
operations, division included, since the inverse of a scalar is found by way of its conjugate as
well (`Complex.ofReal_div`).  A result is complex exactly if an operand is (`Numeric.isComplex_add`
and its kin), so that an equation of values is one of numbers and one of kinds.

Main statement: values add and multiply as in a field, and subtracting and dividing undo adding and
multiplying up to the kind of the value (`Numeric.field_laws`).
-/

namespace Formula

variable {R : Type} [Field R] [LinearOrder R] {functions : Elementary R}

/-! ### Quotients -/

namespace Complex

/-- The quotient of two scalars is also found on the plane; dividing by zero gives zero there, too. -/
theorem ofReal_div (x y : Exact functions) : ofReal (x / y) = ofReal x / ofReal y := by
  have hinverse : y⁻¹ = 1 / (y * y + 0 * 0) * y := by
    by_cases hy : y = 0
    · rw [hy, inv_zero, mul_zero]
    · rw [zero_mul, add_zero]
      field_simp
  simp only [ofReal, div_def, mul_def, conj, inverseAbs2, abs2]
  refine Complex.ext ?re ?im
  case re =>
    rw [div_eq_mul_inv, hinverse]
    ring
  case im => ring

/-- The quotient of a product by one of its factors is the other. -/
theorem mul_div_cancel [IsStrictOrderedRing R] {w : Complex (Exact functions)}
    (z : Complex (Exact functions)) (h : w ≠ 0) : z * w / w = z :=
  calc z * w / w = z / w * w := by
        rw [div_def, div_def]
        ring
    _ = z := div_mul_cancel z h

end Complex

namespace Numeric

/-! ### Kinds -/

section Kinds

variable {K : Type} [Kernel K]

theorem isComplex_combine (onScalars : K → K → K) (onComplex : Complex K → Complex K → Complex K)
    (z w : Numeric K) :
    (combine onScalars onComplex z w).isComplex = (z.isComplex || w.isComplex) := by
  cases z <;> cases w <;> rfl

variable (z w : Numeric K)

@[simp] theorem isComplex_add : (z + w).isComplex = (z.isComplex || w.isComplex) :=
  isComplex_combine _ _ z w

@[simp] theorem isComplex_sub : (z - w).isComplex = (z.isComplex || w.isComplex) :=
  isComplex_combine _ _ z w

@[simp] theorem isComplex_mul : (z * w).isComplex = (z.isComplex || w.isComplex) :=
  isComplex_combine _ _ z w

@[simp] theorem isComplex_div : (z / w).isComplex = (z.isComplex || w.isComplex) :=
  isComplex_combine _ _ z w

/-- All operators but the power keep to the scalars. -/
theorem isComplex_apply {op : Operator} (hop : op ≠ .power) :
    (op.apply z w).isComplex = (z.isComplex || w.isComplex) := by
  cases op with
  | power => exact absurd rfl hop
  | times => exact isComplex_mul z w
  | divide => exact isComplex_div z w
  | plus => exact isComplex_add z w
  | minus => exact isComplex_sub z w

end Kinds

/-! ### The laws of a field -/

section Laws

variable (u v w : Numeric (Exact functions))

theorem promote_div : (u / v).promote = u.promote / v.promote :=
  promote_combine Complex.ofReal_div u v

protected theorem add_comm : u + v = v + u := by
  refine eq_of_same ?same (by simp [Bool.or_comm])
  case same =>
    rw [Same, promote_add, promote_add]
    ring

protected theorem add_assoc : u + v + w = u + (v + w) := by
  refine eq_of_same ?same (by simp [Bool.or_assoc])
  case same =>
    simp only [Same, promote_add]
    ring

protected theorem mul_comm : u * v = v * u := by
  refine eq_of_same ?same (by simp [Bool.or_comm])
  case same =>
    rw [Same, promote_mul, promote_mul]
    ring

protected theorem mul_assoc : u * v * w = u * (v * w) := by
  refine eq_of_same ?same (by simp [Bool.or_assoc])
  case same =>
    simp only [Same, promote_mul]
    ring

protected theorem mul_add : u * (v + w) = u * v + u * w := by
  refine eq_of_same ?same ?kind
  case same =>
    simp only [Same, promote_add, promote_mul]
    ring
  case kind =>
    simp only [isComplex_add, isComplex_mul]
    cases u.isComplex <;> simp

theorem same_add_sub : (u + v - v).Same u := by
  rw [Same, promote_sub, promote_add]
  ring

variable [IsStrictOrderedRing R] {v} (hv : ¬ v.Same (real 0))

include hv

theorem same_div_mul : (u / v * v).Same u := by
  rw [Same, promote_mul, promote_div]
  exact Complex.div_mul_cancel u.promote hv

theorem same_mul_div : (u * v / v).Same u := by
  rw [Same, promote_div, promote_mul]
  exact Complex.mul_div_cancel u.promote hv

end Laws

/-- **Mixed arithmetic is that of a field**, whichever of the values are complex.  The laws of sums
and products hold for values with their kinds; taking a value off again gives the same number, which
is complex now if the value was.  A result is complex exactly if an operand is. -/
theorem field_laws [IsStrictOrderedRing R] (u v w : Numeric (Exact functions)) :
    (u + v = v + u ∧ u + v + w = u + (v + w)) ∧
    (u * v = v * u ∧ u * v * w = u * (v * w)) ∧
    u * (v + w) = u * v + u * w ∧
    (u + v - v).Same u ∧
    (¬ v.Same (real 0) → (u / v * v).Same u ∧ (u * v / v).Same u) ∧
    ∀ op : Operator, op ≠ .power → (op.apply u v).isComplex = (u.isComplex || v.isComplex) := by
  refine ⟨⟨Numeric.add_comm u v, Numeric.add_assoc u v w⟩,
    ⟨Numeric.mul_comm u v, Numeric.mul_assoc u v w⟩, Numeric.mul_add u v w,
    same_add_sub u v, fun hv => ⟨same_div_mul u hv, same_mul_div u hv⟩, fun op hop => ?_⟩
  exact isComplex_apply u v hop

/-- A scalar divided by the imaginary unit and multiplied by it again. -/
theorem field_laws_i : ¬ (complex .i : Numeric Reals).Same (real 0) ∧
    (real 3 / complex .i * complex .i : Numeric Reals).Same (real 3) ∧
    (real 3 / complex .i : Numeric Reals).isComplex = true := by
  have hne : ¬ (complex .i : Numeric Reals).Same (real 0) := fun h =>
    one_ne_zero (α := ℝ) (congrArg Complex.im h)
  obtain ⟨-, -, -, -, hcancel, hkind⟩ := field_laws (real 3 : Numeric Reals) (complex .i) (real 0)
  exact ⟨hne, (hcancel hne).1, hkind .divide (by decide)⟩

end Numeric

end Formula
