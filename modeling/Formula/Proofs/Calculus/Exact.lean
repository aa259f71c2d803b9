import Formula.Tree.Simplify
import Mathlib.Algebra.Algebra.Basic
import Mathlib.RingTheory.Derivation.Basic

/-!
Exact constants and what formulas over them mean.  The constants are the elements of a field, and a
fold is refused only where it is undefined.  A formula has a value in a field above that of the
constants, one with a derivation (`Calculus`), and simplifying keeps its value and its being defined
(`value_simplify`, `Defined.simplify`).
-/

namespace Formula

/-! ### Constants -/

/-- How to compute with the elements of a field beyond its four operations. -/
class ExactConstants (F : Type) [Field F] where
  /-- The integer that an element is, when it is one. -/
  integer? : F → Option ℤ
  cast_integer? : ∀ {c : F} {n : ℤ}, integer? c = some n → (n : F) = c
  /-- A power whose exponent is no integer, where the field has it. -/
  power : F → F → Option F
  /-- The value of a function, where the field has it. -/
  func : Func → F → Option F

section Constants

variable {F : Type} [Field F] [ExactConstants F] [DecidableEq F]

/-- The element that an operator makes of two, unless that is undefined. -/
def ExactConstants.foldOperator (op : Operator) (c d : F) : Option F :=
  match op with
  | .plus => some (c + d)
  | .minus => some (c - d)
  | .times => some (c * d)
  | .divide => if d = 0 then none else some (c / d)
  | .power =>
    match integer? d with
    | some n => if c = 0 ∧ n < 0 then none else some (c ^ n)
    | none => power c d

instance (priority := low) : Constant F where
  ofInt n := n
  eq c d := decide (c = d)
  same c d := decide (c = d)
  isInteger c := (ExactConstants.integer? c).isSome
  pred c := c - 1
  foldOperator := ExactConstants.foldOperator
  foldFunc := ExactConstants.func

end Constants

/-! ### Meanings -/

/-- A field in which formulas over `F` have values and derivatives by a variable. -/
structure Calculus (F : Type) (L : Type*) [Field F] [ExactConstants F] [Field L] [Algebra F L]
    (x : String) where
  /-- The derivative; that of a constant is zero. -/
  D : Derivation F L L
  /-- The values of the variables. -/
  env : String → L
  power : L → L → L
  func : Func → L → L
  D_env_self : D (env x) = 1
  D_env_of_ne : ∀ {y}, y ≠ x → D (env y) = 0
  /-- Powers with integer exponents are those of the field, where these are defined. -/
  power_int : ∀ {u : L} {n : ℤ}, u ≠ 0 ∨ 0 ≤ n → power u n = u ^ n
  power_of_fold : ∀ {c d e : F}, ExactConstants.integer? d = none →
    ExactConstants.power c d = some e →
    power (algebraMap F L c) (algebraMap F L d) = algebraMap F L e
  func_of_fold : ∀ {f} {c d : F}, ExactConstants.func f c = some d →
    func f (algebraMap F L c) = algebraMap F L d
  D_sin : ∀ u, D (func .sin u) = func .cos u * D u
  D_cos : ∀ u, D (func .cos u) = -func .sin u * D u
  D_exp : ∀ u, D (func .exp u) = func .exp u * D u
  D_log : ∀ {u}, u ≠ 0 → D (func .log u) = D u / u
  D_tan : ∀ u, D (func .tan u) = (1 + func .tan u ^ 2) * D u
  D_step : ∀ u, D (func .step u) = 0
  D_func_of_constant : ∀ {f u}, D u = 0 → D (func f u) = 0
  D_power_of_constant : ∀ {u v}, D u = 0 → D v = 0 → D (power u v) = 0

namespace Calculus

open Term

variable {F : Type} {L : Type*} [Field F] [ExactConstants F] [Field L] [Algebra F L] {x : String}
  (I : Calculus F L x)

/-- What an operator makes of two values. -/
def operator : Operator → L → L → L
  | .plus, u, v => u + v
  | .minus, u, v => u - v
  | .times, u, v => u * v
  | .divide, u, v => u / v
  | .power, u, v => I.power u v

/-- The value of a formula. -/
def value : Tree F → L
  | constant c => algebraMap F L c
  | var y => I.env y
  | binary op left right => I.operator op (value left) (value right)
  | unary f arg => I.func f (value arg)

theorem value_binary (op : Operator) (left right : Tree F) :
    I.value (binary op left right) = I.operator op (I.value left) (I.value right) := rfl

/-- Where an operator is defined: a divisor is not zero, and neither is the base of a power, unless
the exponent is a natural number. -/
def OperatorDefined : Operator → L → L → Prop
  | .divide, _, v => v ≠ 0
  | .power, u, v => u ≠ 0 ∨ ∃ n : ℕ, v = n
  | _, _, _ => True

/-- Where a function is defined: the argument of a logarithm is not zero. -/
def FuncDefined : Func → L → Prop
  | .log, u => u ≠ 0
  | _, _ => True

/-- Every operation in a formula is defined. -/
def Defined : Tree F → Prop
  | constant _ | var _ => True
  | binary op left right =>
    Defined left ∧ Defined right ∧ OperatorDefined op (I.value left) (I.value right)
  | unary f arg => Defined arg ∧ FuncDefined f (I.value arg)

/-! ### Powers and folds -/

section Folds

variable {op : Operator}

theorem power_zero (u : L) : I.power u 0 = 1 := by
  have := I.power_int (u := u) (n := 0) (.inr (Int.le_refl 0))
  rwa [Int.cast_zero, zpow_zero] at this

theorem power_one (u : L) : I.power u 1 = u := by
  have := I.power_int (u := u) (n := 1) (.inr Int.one_nonneg)
  rwa [Int.cast_one, zpow_one] at this

variable [DecidableEq F]

theorem operator_of_fold {c d e : F} (h : ExactConstants.foldOperator op c d = some e) :
    I.operator op (algebraMap F L c) (algebraMap F L d) = algebraMap F L e := by
  cases op with
  | plus =>
    cases h
    exact (map_add _ c d).symm
  | minus =>
    cases h
    exact (map_sub _ c d).symm
  | times =>
    cases h
    exact (map_mul _ c d).symm
  | divide =>
    simp only [ExactConstants.foldOperator] at h
    split at h
    · cases h
    · cases h
      exact (map_div₀ _ c d).symm
  | power =>
    simp only [ExactConstants.foldOperator] at h
    split at h
    · rename_i n hn
      split at h
      · cases h
      · rename_i hdefined
        cases h
        have hbase : algebraMap F L c ≠ 0 ∨ 0 ≤ n := by
          rw [map_ne_zero]
          by_contra! hnone
          exact hdefined hnone
        rw [← ExactConstants.cast_integer? hn, map_intCast, map_zpow₀]
        exact I.power_int hbase
    · rename_i hn
      exact I.power_of_fold hn h

end Folds

/-! ### Simplification keeps the value -/

section Value

variable [DecidableEq F] {op : Operator} {f : Func} {left right arg t : Tree F} {passes : ℤ}

@[simp] theorem value_number (n : ℤ) : I.value (number n) = n := map_intCast (algebraMap F L) n

theorem value_of_isNumber {n : ℤ} (h : t.isNumber n = true) : I.value t = n := by
  cases t with
  | constant c =>
    have hc : c = (n : F) := of_decide_eq_true h
    rw [hc]
    exact I.value_number n
  | _ => cases h

theorem value_of_isNumber_zero (h : t.isNumber 0 = true) : I.value t = 0 :=
  (I.value_of_isNumber h).trans Int.cast_zero

theorem value_of_isNumber_one (h : t.isNumber 1 = true) : I.value t = 1 :=
  (I.value_of_isNumber h).trans Int.cast_one

theorem value_of_foldOperator? {c : F} (h : foldOperator? op left right = some c) :
    I.value (binary op left right) = algebraMap F L c := by
  cases left with
  | constant a =>
    cases right with
    | constant b => exact I.operator_of_fold h
    | _ => cases h
  | _ => cases h

theorem value_of_foldFunc? {c : F} (h : foldFunc? f arg = some c) :
    I.value (unary f arg) = algebraMap F L c := by
  cases arg with
  | constant a => exact I.func_of_fold h
  | _ => cases h

theorem value_dropNeutral :
    I.value (dropNeutral op left right) = I.value (binary op left right) := by
  cases op with
  | plus | minus =>
    simp only [dropNeutral]
    split_ifs with hboth hl hr
    · obtain ⟨hl, hr⟩ := Bool.and_eq_true_iff.1 hboth
      simp [value, operator, I.value_of_isNumber_zero hl, I.value_of_isNumber_zero hr]
    · simp [value, operator, I.value_of_isNumber_zero hl]
    · simp [value, operator, I.value_of_isNumber_zero hr]
    · rfl
  | times =>
    simp only [dropNeutral]
    split_ifs with hzero hr hl
    · rcases Bool.or_eq_true_iff.1 hzero with hl | hr
      · simp [value, operator, I.value_of_isNumber_zero hl]
      · simp [value, operator, I.value_of_isNumber_zero hr]
    · simp [value, operator, I.value_of_isNumber_one hr]
    · simp [value, operator, I.value_of_isNumber_one hl]
    · rfl
  | power =>
    simp only [dropNeutral]
    split_ifs with hone hzero
    · simp [value, operator, I.value_of_isNumber_one hone, I.power_one]
    · simp [value, operator, I.value_of_isNumber_zero hzero, I.power_zero]
    · rfl
  | divide =>
    simp only [dropNeutral]
    split_ifs with hzero
    · simp [value, operator, I.value_of_isNumber_zero hzero]
    · rfl

theorem value_reduceBinary :
    I.value (reduceBinary op left right) = I.value (binary op left right) := by
  unfold reduceBinary
  split
  · rename_i hfold
    exact (I.value_of_foldOperator? hfold).symm
  · exact I.value_dropNeutral

theorem value_reduceUnary : I.value (reduceUnary f arg) = I.value (unary f arg) := by
  unfold reduceUnary
  split
  · rename_i hfold
    exact (I.value_of_foldFunc? hfold).symm
  · rfl

theorem value_reduce (t : Tree F) : I.value t.reduce = I.value t := by
  induction t with
  | constant c => rfl
  | var y => rfl
  | binary op left right ihl ihr => rw [reduce, value_reduceBinary, value, value, ihl, ihr]
  | unary f arg ih => rw [reduce, value_reduceUnary, value, value, ih]

/-- **Simplification keeps the value.** -/
@[simp] theorem value_simplify : I.value (t.simplify passes) = I.value t :=
  simplify_induction (P := fun u => I.value u = I.value t)
    (fun u hu => (I.value_reduce u).trans hu) passes rfl

end Value

/-! ### Simplification keeps a formula defined -/

section Defined

variable {I} [DecidableEq F] {op : Operator} {f : Func} {left right arg t : Tree F} {passes : ℤ}

theorem Defined.dropNeutral (h : I.Defined (binary op left right)) :
    I.Defined (dropNeutral op left right) := by
  obtain ⟨hl, hr, hop⟩ := h
  -- what is left is an operand, a number, a product or the operation itself
  cases op <;> simp only [Term.dropNeutral] <;> split_ifs <;>
    first
    | exact hl
    | exact hr
    | exact trivial
    | exact ⟨hl, hr, hop⟩
    | exact ⟨trivial, hr, trivial⟩

theorem Defined.reduce (h : I.Defined t) : I.Defined t.reduce := by
  induction t with
  | constant c => trivial
  | var y => trivial
  | binary op left right ihl ihr =>
    obtain ⟨hl, hr, hop⟩ := h
    rw [← I.value_reduce left, ← I.value_reduce right] at hop
    rw [Term.reduce, reduceBinary]
    split
    · trivial
    · exact Defined.dropNeutral ⟨ihl hl, ihr hr, hop⟩
  | unary f arg ih =>
    obtain ⟨harg, hf⟩ := h
    rw [← I.value_reduce arg] at hf
    rw [Term.reduce, reduceUnary]
    split
    · trivial
    · exact ⟨ih harg, hf⟩

/-- **Simplification keeps a formula defined.** -/
theorem Defined.simplify (h : I.Defined t) : I.Defined (t.simplify passes) :=
  simplify_induction (fun _ hu => hu.reduce) passes h

end Defined

end Calculus

end Formula
