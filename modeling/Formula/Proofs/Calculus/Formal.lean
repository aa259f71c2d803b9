import Formula.Proofs.Calculus.Exact
import Mathlib.Algebra.Algebra.Rat
import Mathlib.Algebra.CharP.Algebra
import Mathlib.Algebra.MvPolynomial.Cardinal
import Mathlib.Algebra.MvPolynomial.Derivation
import Mathlib.Data.Rat.Denumerable
import Mathlib.RingTheory.Etale.Kaehler
import Mathlib.Tactic.DeriveCountable

/-!
A calculus over the rational numbers.  Its elements are fractions of polynomials in the variables
and in countably many formal sines, cosines, exponentials, tangents and logarithms.  There are only
countably many fractions, so that a formal function can be named by the number of the derivative
that its argument has, or that it has to have itself.
-/

namespace Formula

/-- Rational numbers as constants; no function is computed. -/
instance : ExactConstants ℚ where
  integer? q := if q.den = 1 then some q.num else none
  cast_integer? := by
    intro c n h
    split at h
    · rename_i hden
      cases h
      exact Rat.coe_int_num_of_den_eq_one hden
    · cases h
  power _ _ := none
  func _ _ := none

namespace Formal

/-! ### Fractions -/

instance countable_char : Countable Char :=
  Function.Injective.countable fun _ _ h => Char.toNat_inj.1 h

instance countable_string : Countable String :=
  Function.Injective.countable fun _ _ h => String.toList_inj.1 h

/-- The indeterminates: variables, and functions by their numbers. -/
inductive Atom
  | variable (y : String)
  | sine (n : ℕ)
  | cosine (n : ℕ)
  | exponential (n : ℕ)
  | tangent (n : ℕ)
  | logarithm (n : ℕ)
  deriving Countable

/-- Fractions of polynomials in the indeterminates. -/
def Element : Type := FractionRing (MvPolynomial Atom ℚ)

noncomputable instance : Field Element := inferInstanceAs (Field (FractionRing _))

noncomputable instance : Algebra (MvPolynomial Atom ℚ) Element :=
  inferInstanceAs (Algebra _ (FractionRing _))

instance : IsFractionRing (MvPolynomial Atom ℚ) Element :=
  inferInstanceAs (IsFractionRing _ (FractionRing _))

instance : CharZero Element :=
  charZero_of_injective_algebraMap (IsFractionRing.injective (MvPolynomial Atom ℚ) Element)

/-- An indeterminate as an element. -/
noncomputable def element (a : Atom) : Element :=
  algebraMap (MvPolynomial Atom ℚ) Element (MvPolynomial.X a)

instance : Countable (MvPolynomial Atom ℚ) := by
  rw [← Cardinal.mk_le_aleph0_iff]
  refine MvPolynomial.cardinalMk_le_max.trans ?_
  simp [Cardinal.mk_le_aleph0]

theorem countable_element : Countable Element := by
  refine Function.Surjective.countable (f := fun p : MvPolynomial Atom ℚ × MvPolynomial Atom ℚ =>
    algebraMap _ Element p.1 / algebraMap _ Element p.2) fun z => ?_
  obtain ⟨a, b, -, h⟩ := IsFractionRing.div_surjective (A := MvPolynomial Atom ℚ) z
  exact ⟨(a, b), h⟩

theorem exists_enumeration : ∃ f : ℕ → Element, Function.Surjective f :=
  have := countable_element
  exists_surjective_nat Element

/-- The elements in some order. -/
noncomputable def enumeration : ℕ → Element := exists_enumeration.choose

/-- The number of an element. -/
noncomputable def index : Element → ℕ := Function.surjInv exists_enumeration.choose_spec

theorem enumeration_index (u : Element) : enumeration (index u) = u :=
  Function.surjInv_eq exists_enumeration.choose_spec u

theorem element_ne_zero (a : Atom) : element a ≠ 0 := by
  rw [element, Ne, map_eq_zero_iff _ (IsFractionRing.injective _ Element)]
  exact MvPolynomial.X_ne_zero a

/-! ### The derivative -/

/-- The derivative of an indeterminate. -/
noncomputable def rate (x : String) : Atom → Element
  | .variable y => if y = x then 1 else 0
  | .sine n => element (.cosine n) * enumeration n
  | .cosine n => -element (.sine n) * enumeration n
  | .exponential n => element (.exponential n) * enumeration n
  | .tangent n => (1 + element (.tangent n) ^ 2) * enumeration n
  | .logarithm n => enumeration n

/-- A derivation of polynomials goes on to their fractions. -/
theorem exists_extension (d : Derivation ℚ (MvPolynomial Atom ℚ) Element) :
    ∃ D : Derivation ℚ Element Element, ∀ p, D (algebraMap _ Element p) = d p := by
  have : Algebra.FormallyEtale (MvPolynomial Atom ℚ) Element :=
    .of_isLocalization (nonZeroDivisors _)
  let differentials := KaehlerDifferential.tensorKaehlerEquivOfFormallyEtale ℚ
    (MvPolynomial Atom ℚ) Element
  refine ⟨((d.liftKaehlerDifferential.liftBaseChange Element).comp
    differentials.symm.toLinearMap).compDer (KaehlerDifferential.D ℚ Element), fun p => ?_⟩
  simp [differentials, KaehlerDifferential.tensorKaehlerEquivOfFormallyEtale_symm_D_algebraMap]

/-- The derivative by a variable. -/
noncomputable def derivative (x : String) : Derivation ℚ Element Element :=
  (exists_extension (MvPolynomial.mkDerivation ℚ (rate x))).choose

theorem derivative_element (x : String) (a : Atom) : derivative x (element a) = rate x a := by
  rw [element, derivative,
    (exists_extension (MvPolynomial.mkDerivation ℚ (rate x))).choose_spec]
  exact MvPolynomial.mkDerivation_X ℚ (rate x) a

/-! ### Powers and functions -/

open Classical in
/-- Powers with integer exponents; all others are zero. -/
noncomputable def power (u v : Element) : Element :=
  if h : ∃ n : ℤ, (n : Element) = v then u ^ h.choose else 0

theorem power_intCast (u : Element) (n : ℤ) : power u n = u ^ n := by
  have h : ∃ m : ℤ, (m : Element) = n := ⟨n, rfl⟩
  rw [power, dif_pos h, Int.cast_injective h.choose_spec]

/-- The functions that have a rule; all others are zero. -/
noncomputable def func (D : Derivation ℚ Element Element) : Func → Element → Element
  | .sin, u => element (.sine (index (D u)))
  | .cos, u => element (.cosine (index (D u)))
  | .exp, u => element (.exponential (index (D u)))
  | .tan, u => element (.tangent (index (D u)))
  | .log, u => element (.logarithm (index (D u / u)))
  | _, _ => 0

end Formal

open Formal

/-- The formal calculus. -/
noncomputable def formalCalculus (x : String) : Calculus ℚ Element x where
  D := derivative x
  env y := element (.variable y)
  power := power
  func := func (derivative x)
  D_env_self := by rw [derivative_element, rate, if_pos rfl]
  D_env_of_ne h := by rw [derivative_element, rate, if_neg h]
  power_int _ := power_intCast _ _
  power_of_fold _ h := by cases h
  func_of_fold h := by cases h
  D_sin u := by simp only [func, derivative_element, rate, enumeration_index]
  D_cos u := by simp only [func, derivative_element, rate, enumeration_index]
  D_exp u := by simp only [func, derivative_element, rate, enumeration_index]
  D_log _ := by simp only [func, derivative_element, rate, enumeration_index]
  D_tan u := by simp only [func, derivative_element, rate, enumeration_index]
  D_step u := map_zero (derivative x)
  D_func_of_constant := by
    intro f u hu
    cases f <;> simp [func, derivative_element, rate, enumeration_index, hu]
  D_power_of_constant := by
    intro u v hu _
    rw [power]
    split
    · simp [Derivation.leibniz_zpow, hu]
    · exact map_zero _

end Formula
