import Formula.Proofs.Number.Constants
import Formula.Proofs.Number.Promotion
import Formula.Proofs.Number.Rational

/-!
Powers of scalars and of complex numbers on the real axis.  A power of two scalars leaves the real
axis (`Doubles.LeavesAxis`) if the base is negative and the exponent is finite and no integer; the
test for it is made for scalars and again for complex numbers, on their real parts.

Main statement: taking an operand to the complex plane first changes nothing of a power but that
it is complex then (`Numeric.pow_promoted`).
-/

namespace Formula

/-! ### Powers -/

theorem Numeric.isComplex_pow_real {K : Type} [Kernel K] (x y : K) :
    ((real x).pow (real y)).isComplex = Complex.needsComplexPower x y := by
  rw [pow]
  cases Complex.needsComplexPower x y <;> rfl

/-- Two numbers on the real axis have the power of the scalars there, unless it leaves the axis. -/
theorem Complex.pow_ofReal {K : Type} [Kernel K] (hzero : Kernel.eq (0 : K) 0 = true) (x y : K) :
    pow (ofReal x) (ofReal y) = if needsComplexPower x y
      then exp (log (ofReal x) * ofReal y) else ofReal (Kernel.power x y) := by
  simp only [pow, ofReal, hzero, Bool.true_and]
  cases needsComplexPower x y <;> rfl

/-- A power is the same number when both operands are taken to the complex plane first. -/
theorem Numeric.promote_pow {K : Type} [Kernel K] (hzero : Kernel.eq (0 : K) 0 = true)
    (z w : Numeric K) : (z.pow w).promote = Complex.pow z.promote w.promote := by
  cases z with
  | complex z => rfl
  | real x =>
    cases w with
    | complex w => rfl
    | real y =>
      rw [pow]
      split
      · rfl
      · rename_i hstays
        rw [promote_real, promote_real, promote_real, Complex.pow_ofReal hzero, if_neg hstays]

namespace Doubles

open Double

variable {lib : Library}

/-- The base is negative, and the exponent is finite and no integer. -/
def LeavesAxis (base exponent : Doubles lib) : Prop :=
  IsNegative base.view ∧ ∃ q, rational? exponent.view = some q ∧ ∀ n : ℤ, q ≠ n

theorem isFinite_iff_rational? {x : Doubles lib} :
    Kernel.isFinite x = true ↔ ∃ q, rational? x.view = some q := by
  rw [isFinite_iff]
  cases x.view with
  | notANumber => simp [rational?, Float.Model.UnpackedFloat.isFinite]
  | infinity s => simp [rational?, Float.Model.UnpackedFloat.isFinite]
  | zero s => simp [rational?, Float.Model.UnpackedFloat.isFinite]
  | finite s m e hm => cases s <;> simp [rational?, Float.Model.UnpackedFloat.isFinite]

theorem isInteger_iff {x : Doubles lib} :
    Kernel.isInteger x = true ↔ ∃ n : ℤ, rational? x.view = some (n : ℚ) := by
  have hinteger : Kernel.isInteger x = (integer? x).isSome := rfl
  rw [hinteger, Option.isSome_iff_exists]
  exact exists_congr fun n => integer?_eq_some

theorem needsComplexPower_iff {base exponent : Doubles lib} :
    Complex.needsComplexPower base exponent = true ↔ LeavesAxis base exponent := by
  have hbase : Kernel.lt base 0 = true ↔ IsNegative base.view := lt_zero_iff
  simp only [Complex.needsComplexPower, Bool.and_eq_true, Bool.not_eq_true', LeavesAxis, hbase,
    isFinite_iff_rational?, ← Bool.not_eq_true, isInteger_iff]
  constructor
  · rintro ⟨⟨hnegative, q, hq⟩, hinteger⟩
    refine ⟨hnegative, q, hq, ?_⟩
    rintro n rfl
    exact hinteger ⟨n, hq⟩
  · rintro ⟨hnegative, q, hq, hne⟩
    refine ⟨⟨hnegative, q, hq⟩, ?_⟩
    rintro ⟨n, hn⟩
    exact hne n (Option.some.inj (hq.symm.trans hn))

theorem eq_zero_self : Kernel.eq (0 : Doubles lib) 0 = true := by
  rw [eq_iff, view_zero]
  exact agree_zero _ _

end Doubles

namespace Numeric

open Doubles

/-- **A power does not depend on whether an operand was taken to the complex plane before**: for any
doubles, zeros of both signs, infinities and undefined ones included, the three ways to do so have
one result, which is the power of the scalars taken to the plane.  That power is complex exactly
if the base is negative and the exponent is finite and no integer. -/
theorem pow_promoted (lib : Library) (a b : Doubles lib) :
    let power := (real a).pow (real b)
    (complex (.ofReal a)).pow (real b) = complex power.promote ∧
      (real a).pow (complex (.ofReal b)) = complex power.promote ∧
      (complex (.ofReal a)).pow (complex (.ofReal b)) = complex power.promote ∧
      (power.isComplex = true ↔ LeavesAxis a b) := by
  intro power
  have hpower : power.promote = Complex.pow (.ofReal a) (.ofReal b) :=
    promote_pow eq_zero_self (real a) (real b)
  rw [hpower]
  refine ⟨rfl, rfl, rfl, ?_⟩
  rw [isComplex_pow_real]
  exact needsComplexPower_iff

end Numeric

end Formula
