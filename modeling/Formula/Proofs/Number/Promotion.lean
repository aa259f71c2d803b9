import Formula.Number.Numeric

/-!
Values taken to the complex plane.  A value is known by its kind and by the complex number it is
taken to (`Numeric.eq_of_same`); an operation that takes scalars where complex numbers on the real
axis are taken can be followed on the plane (`Numeric.promote_combine`).
-/

namespace Formula.Numeric

variable {K : Type}

/-- Whether a value is complex; one with imaginary part zero is. -/
def isComplex : Numeric K → Bool
  | real _ => false
  | complex _ => true

variable [Kernel K]

/-- Two values are the same number; a scalar is the same as the complex number on the real axis. -/
def Same (z w : Numeric K) : Prop := z.promote = w.promote

variable {z w : Numeric K}

/-- The same number of the same kind is the same value. -/
theorem eq_of_same (h : z.Same w) (hkind : z.isComplex = w.isComplex) : z = w := by
  cases z with
  | real x =>
    cases w with
    | real y => exact congrArg real (congrArg Complex.re h)
    | complex w => cases hkind
  | complex z =>
    cases w with
    | real y => cases hkind
    | complex w => exact congrArg complex h

section Combine

variable {onScalars : K → K → K} {onComplex : Complex K → Complex K → Complex K}

theorem promote_combine
    (h : ∀ x y, Complex.ofReal (onScalars x y) = onComplex (.ofReal x) (.ofReal y))
    (z w : Numeric K) :
    (combine onScalars onComplex z w).promote = onComplex z.promote w.promote := by
  cases z with
  | complex z => rfl
  | real x =>
    cases w with
    | complex w => rfl
    | real y => exact h x y

end Combine

end Formula.Numeric
