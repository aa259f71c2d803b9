import Mathlib.Algebra.Order.Field.Basic
import Mathlib.Tactic.Ring
import Formula.Proofs.Number.Promotion

/-!
Complex numbers over exact scalars.  The scalars are the elements of an ordered field, which compute
without rounding, with functions that are given (`Elementary`, `Exact`).  The complex numbers over
them are a commutative ring, in which a quotient is one (`Complex.div_mul_cancel`); taking values
to the complex plane respects the operations of the ring, so that values can be compared there
(`Numeric.Same`).
-/

namespace Formula

/-! ### Exact scalars -/

/-- The functions of scalars that are not made of the four operations. -/
structure Elementary (R : Type) where
  power : R → R → R
  exp : R → R
  log : R → R
  sin : R → R
  cos : R → R
  tan : R → R
  sinh : R → R
  cosh : R → R
  tanh : R → R
  atan : R → R
  sqrt : R → R
  pi : R

/-- Scalars that compute without rounding, and functions as they are given. -/
def Exact {R : Type} (_functions : Elementary R) : Type := R

namespace Exact

variable {R : Type} [Field R] [LinearOrder R] {functions : Elementary R}

instance : Field (Exact functions) := inferInstanceAs (Field R)

instance : LinearOrder (Exact functions) := inferInstanceAs (LinearOrder R)

instance [IsStrictOrderedRing R] : IsStrictOrderedRing (Exact functions) :=
  inferInstanceAs (IsStrictOrderedRing R)

open Classical in
noncomputable instance : Kernel (Exact functions) where
  toZero := inferInstance
  toOne := inferInstance
  toAdd := inferInstance
  toSub := inferInstance
  toMul := inferInstance
  toDiv := inferInstance
  toNeg := inferInstance
  power := functions.power
  abs x := |x|
  exp := functions.exp
  log := functions.log
  sin := functions.sin
  cos := functions.cos
  tan := functions.tan
  sinh := functions.sinh
  cosh := functions.cosh
  tanh := functions.tanh
  atan := functions.atan
  sqrt := functions.sqrt
  pi := functions.pi
  eq x y := decide (x = y)
  lt x y := decide (x < y)
  le x y := decide (x ≤ y)
  isFinite _ := true
  integer? x := if h : ∃ n : ℤ, (n : Exact functions) = x then some h.choose else none

section Tests

variable {x y : Exact functions}

theorem eq_iff : Kernel.eq x y = true ↔ x = y := decide_eq_true_iff

theorem lt_iff : Kernel.lt x y = true ↔ x < y := decide_eq_true_iff

theorem le_iff : Kernel.le x y = true ↔ x ≤ y := decide_eq_true_iff

end Tests

end Exact

/-! ### The ring of complex numbers -/

attribute [ext] Complex

namespace Complex

variable {R : Type} [Field R] [LinearOrder R] {functions : Elementary R}

noncomputable instance : Zero (Complex (Exact functions)) := ⟨ofReal 0⟩

noncomputable instance : One (Complex (Exact functions)) := ⟨ofReal 1⟩

theorem zero_def : (0 : Complex (Exact functions)) = ⟨0, 0⟩ := rfl

theorem one_def : (1 : Complex (Exact functions)) = ⟨1, 0⟩ := rfl

noncomputable instance : CommRing (Complex (Exact functions)) where
  add_assoc _ _ _ := Complex.ext (add_assoc _ _ _) (add_assoc _ _ _)
  zero_add _ := Complex.ext (zero_add _) (zero_add _)
  add_zero _ := Complex.ext (add_zero _) (add_zero _)
  add_comm _ _ := Complex.ext (add_comm _ _) (add_comm _ _)
  neg_add_cancel _ := Complex.ext (neg_add_cancel _) (neg_add_cancel _)
  sub_eq_add_neg _ _ := Complex.ext (sub_eq_add_neg _ _) (sub_eq_add_neg _ _)
  mul_assoc z w v := by
    simp only [mul_def]
    exact Complex.ext (by ring) (by ring)
  mul_comm z w := by
    simp only [mul_def]
    exact Complex.ext (by ring) (by ring)
  one_mul z := by
    simp only [mul_def, one_def]
    exact Complex.ext (by ring) (by ring)
  mul_one z := by
    simp only [mul_def, one_def]
    exact Complex.ext (by ring) (by ring)
  zero_mul z := by
    simp only [mul_def, zero_def]
    exact Complex.ext (by ring) (by ring)
  mul_zero z := by
    simp only [mul_def, zero_def]
    exact Complex.ext (by ring) (by ring)
  left_distrib z w v := by
    simp only [mul_def, add_def]
    exact Complex.ext (by ring) (by ring)
  right_distrib z w v := by
    simp only [mul_def, add_def]
    exact Complex.ext (by ring) (by ring)
  nsmul := nsmulRec
  zsmul := zsmulRec

/-! ### Scalars in the ring -/

section Scalars

variable (x y : Exact functions) (z : Complex (Exact functions))

theorem ofReal_add : ofReal (x + y) = ofReal x + ofReal y :=
  Complex.ext rfl (add_zero (0 : Exact functions)).symm

theorem ofReal_sub : ofReal (x - y) = ofReal x - ofReal y :=
  Complex.ext rfl (sub_zero (0 : Exact functions)).symm

theorem ofReal_mul : ofReal (x * y) = ofReal x * ofReal y := by
  simp only [ofReal, mul_def]
  exact Complex.ext (by ring) (by ring)

theorem ofReal_neg_one_mul : ofReal (-1) * z = -z := by
  simp only [ofReal, mul_def, neg_def]
  exact Complex.ext (by ring) (by ring)

theorem conj_mul_self : z.conj * z = ofReal z.abs2 := by
  simp only [conj, abs2, ofReal, mul_def]
  exact Complex.ext (by ring) (by ring)

end Scalars

/-! ### Quotients -/

section Quotients

variable [IsStrictOrderedRing R] {z w : Complex (Exact functions)}

theorem abs2_ne_zero (h : w ≠ 0) : w.abs2 ≠ 0 := by
  intro hzero
  obtain ⟨hre, him⟩ := mul_self_add_mul_self_eq_zero.1 hzero
  exact h (Complex.ext hre him)

/-- The product of a quotient with its divisor is what was divided. -/
theorem div_mul_cancel (z : Complex (Exact functions)) (h : w ≠ 0) : z / w * w = z := by
  have hinverse : ofReal w.inverseAbs2 * ofReal w.abs2 = 1 := by
    rw [← ofReal_mul, inverseAbs2, one_div, inv_mul_cancel₀ (abs2_ne_zero h)]
    rfl
  calc z / w * w = z * (ofReal w.inverseAbs2 * (w.conj * w)) := by
        rw [div_def]
        ring
    _ = z := by rw [conj_mul_self, hinverse, mul_one]

end Quotients

end Complex

/-! ### Values in the ring -/

namespace Numeric

variable {R : Type} [Field R] [LinearOrder R] {functions : Elementary R}
  (z w : Numeric (Exact functions))

theorem promote_add : (z + w).promote = z.promote + w.promote :=
  promote_combine Complex.ofReal_add z w

theorem promote_sub : (z - w).promote = z.promote - w.promote :=
  promote_combine Complex.ofReal_sub z w

theorem promote_mul : (z * w).promote = z.promote * w.promote :=
  promote_combine Complex.ofReal_mul z w

end Numeric

end Formula
