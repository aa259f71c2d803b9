import Formula.Number.Numeric

/-!
The laws of scalars.  Scalars are lawful when neutral operands are neutral up to equality of numbers
and when equal operands have equal results, as far as these are finite.
-/

namespace Formula

/-- Scalars on which simplification can rely. -/
class Kernel.Lawful (K : Type) [Kernel K] [Literal K] : Prop where
  ofInt_zero : Literal.ofNumeral (Numeral.ofInt 0) = (0 : K)
  ofInt_one : Literal.ofNumeral (Numeral.ofInt 1) = (1 : K)
  eq_self : ∀ {x : K}, Kernel.isFinite x → Kernel.eq x x
  eq_symm : ∀ {x y : K}, Kernel.eq x y → Kernel.eq y x
  eq_trans : ∀ {x y z : K}, Kernel.eq x y → Kernel.eq y z → Kernel.eq x z
  isFinite_of_eq : ∀ {x y : K}, Kernel.eq x y → Kernel.isFinite x → Kernel.isFinite y
  operator_congr : ∀ (op : Operator) {x x' y y' : K}, Kernel.eq x x' → Kernel.eq y y' →
    Kernel.isFinite (op.onScalars x y) → Kernel.eq (op.onScalars x' y') (op.onScalars x y)
  func_congr : ∀ (f : Func) {x x' : K}, Kernel.eq x x' → Kernel.isFinite (f.onScalar x) →
    Kernel.eq (f.onScalar x') (f.onScalar x)
  needsComplexPower_congr : ∀ {x x' y y' : K}, Kernel.eq x x' → Kernel.eq y y' →
    Complex.needsComplexPower x' y' = Complex.needsComplexPower x y
  zero_add : ∀ {x : K}, Kernel.isFinite x → Kernel.eq (0 + x) x
  add_zero : ∀ {x : K}, Kernel.isFinite x → Kernel.eq (x + 0) x
  zero_sub : ∀ {x : K}, Kernel.isFinite x →
    Kernel.eq (0 - x) (Literal.ofNumeral (Numeral.ofInt (-1)) * x)
  sub_zero : ∀ {x : K}, Kernel.isFinite x → Kernel.eq (x - 0) x
  zero_mul : ∀ {x : K}, Kernel.isFinite x → Kernel.eq (0 * x) 0
  mul_zero : ∀ {x : K}, Kernel.isFinite x → Kernel.eq (x * 0) 0
  one_mul : ∀ {x : K}, Kernel.isFinite x → Kernel.eq (1 * x) x
  mul_one : ∀ {x : K}, Kernel.isFinite x → Kernel.eq (x * 1) x
  zero_div : ∀ {x : K}, Kernel.isFinite (0 / x) → Kernel.eq (0 / x) 0
  power_one : ∀ {x : K}, Kernel.isFinite x → Kernel.eq (Kernel.power x 1) x
  power_zero : ∀ {x : K}, Kernel.isFinite x → Kernel.eq (Kernel.power x 0) 1

variable {K : Type} [Kernel K] {x x' y y' z : K}

/-! ### Scalar results -/

/-- A scalar result of an operator is what the operator makes of scalars. -/
theorem Operator.eq_onScalars {op : Operator} (h : op.apply (.real x) (.real y) = .real z) :
    z = op.onScalars x y := by
  cases op with
  | power =>
    simp only [Operator.apply, Numeric.pow] at h
    split at h
    · exact absurd h nofun
    · exact (Numeric.real.inj h).symm
  | _ => exact (Numeric.real.inj h).symm

theorem Func.apply_real (f : Func) (x : K) : f.apply (.real x) = .real (f.onScalar x) := by
  cases f <;> rfl

section Lawful

variable [Literal K] [Kernel.Lawful K]

/-- An operator does not distinguish equal operands where its result is a finite scalar. -/
theorem Operator.apply_congr (op : Operator) (hx : Kernel.eq x x') (hy : Kernel.eq y y')
    (h : op.apply (.real x) (.real y) = .real z) (hz : Kernel.isFinite z) :
    ∃ z', op.apply (.real x') (.real y') = .real z' ∧ Kernel.eq z' z := by
  obtain rfl := Operator.eq_onScalars h
  refine ⟨op.onScalars x' y', ?_, Kernel.Lawful.operator_congr op hx hy hz⟩
  cases op with
  | power =>
    simp only [Operator.apply, Numeric.pow] at h ⊢
    rw [Kernel.Lawful.needsComplexPower_congr hx hy]
    split at h
    · exact absurd h nofun
    · rename_i hreal
      rw [if_neg hreal, Operator.onScalars]
  | _ => rfl

/-- A function does not distinguish equal arguments where its result is a finite scalar. -/
theorem Func.apply_congr (f : Func) (hx : Kernel.eq x x')
    (h : f.apply (.real x) = .real z) (hz : Kernel.isFinite z) :
    ∃ z', f.apply (.real x') = .real z' ∧ Kernel.eq z' z := by
  rw [Func.apply_real] at h
  obtain rfl := Numeric.real.inj h
  exact ⟨f.onScalar x', Func.apply_real f x', Kernel.Lawful.func_congr f hx hz⟩

end Lawful

end Formula
