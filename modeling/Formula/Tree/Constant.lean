import Formula.Number.Numeric

/-!
What simplification asks of the constants of a tree.  Scalars qualify, and so do exact numbers that
are no kernel: a fold may be refused, and a refused fold leaves the operation in the tree.
-/

namespace Formula

/-- Constants that simplification can compute with. -/
class Constant (κ : Type) where
  ofInt : Int → κ
  /-- Equality of numbers; an undefined constant equals none. -/
  eq : κ → κ → Bool
  /-- Equality that also takes an undefined constant for equal to itself. -/
  same : κ → κ → Bool
  isInteger : κ → Bool
  /-- The constant less one. -/
  pred : κ → κ
  /-- The constant that an operator makes of two, unless it has to stay unfolded. -/
  foldOperator : Operator → κ → κ → Option κ
  /-- The constant that a function makes of one, unless it has to stay unfolded. -/
  foldFunc : Func → κ → Option κ

namespace Constant

variable {K : Type} [Kernel K]

/-- Only finite scalars are folded. -/
def ofNumeric? : Numeric K → Option K
  | .real x => if Kernel.isFinite x then some x else none
  | .complex _ => none

/-- Scalars as constants; all undefined ones count as the same. -/
instance (priority := low) ofKernel [Literal K] : Constant K where
  ofInt n := Literal.ofNumeral (Numeral.ofInt n)
  eq := Kernel.eq
  same c d := Kernel.eq c d || (!Kernel.eq c c && !Kernel.eq d d)
  isInteger := Kernel.isInteger
  pred c := c - 1
  foldOperator op c d := ofNumeric? (op.apply (.real c) (.real d))
  foldFunc f c := ofNumeric? (f.apply (.real c))

end Constant

/-! ### Marked constants -/

/-- A constant with a mark, by which undefined constants are told apart. -/
structure Marked (κ : Type) where
  value : κ
  mark : Nat
  deriving DecidableEq, Repr, Inhabited

/-- A computed constant has the mark zero. -/
instance {κ : Type} [Constant κ] : Constant (Marked κ) where
  ofInt n := ⟨Constant.ofInt n, 0⟩
  eq c d := Constant.eq c.value d.value
  same c d := Constant.eq c.value d.value || (c.mark == d.mark && Constant.same c.value d.value)
  isInteger c := Constant.isInteger c.value
  pred c := ⟨Constant.pred c.value, 0⟩
  foldOperator op c d := (Constant.foldOperator op c.value d.value).map (⟨·, 0⟩)
  foldFunc f c := (Constant.foldFunc f c.value).map (⟨·, 0⟩)

/-- A numeral does not show the mark. -/
instance {κ : Type} [Literal κ] : Literal (Marked κ) where
  ofNumeral n := ⟨Literal.ofNumeral n, 0⟩
  toNumeral c := Literal.toNumeral c.value

end Formula
