import Formula.Number.Numeral
import Formula.Vocabulary

/-!
What a formula asks of the scalars it computes with: arithmetic, the elementary functions and a
few tests (`Kernel`), and the passage from and to numerals (`Literal`).  Everything that follows is
stated over these two classes, so that a law of a formula can be proved over exact numbers as well.
-/

namespace Formula

/-- Scalars with arithmetic, elementary functions and the tests that the operations branch on. -/
class Kernel (K : Type) extends Zero K, One K, Add K, Sub K, Mul K, Div K, Neg K where
  /-- The first argument raised to the second, as far as the result is a scalar. -/
  power : K → K → K
  abs : K → K
  exp : K → K
  log : K → K
  sin : K → K
  cos : K → K
  tan : K → K
  sinh : K → K
  cosh : K → K
  tanh : K → K
  atan : K → K
  sqrt : K → K
  /-- Half the circumference of the unit circle. -/
  pi : K
  /-- Equality of numbers; an undefined number equals none. -/
  eq : K → K → Bool
  lt : K → K → Bool
  le : K → K → Bool
  isFinite : K → Bool
  /-- The scalar as an integer, when it is one. -/
  integer? : K → Option Int

/-- Scalars that numerals denote and that have a numeral of their own. -/
class Literal (K : Type) where
  /-- The scalar that a numeral denotes, rounded if need be. -/
  ofNumeral : Numeral → K
  /-- The shortest numeral that denotes a scalar. -/
  toNumeral : K → Numeral

namespace Kernel

variable {K : Type} [Kernel K]

/-- Two. -/
def two : K := 1 + 1

/-- One half. -/
def half : K := 1 / two

/-- Whether a scalar is an integer. -/
def isInteger (x : K) : Bool := (integer? x).isSome

/-- One from zero upwards, zero below. -/
def step (x : K) : K := if le 0 x then 1 else 0

end Kernel

variable {K : Type} [Kernel K]

/-- An operator on scalars. -/
def Operator.onScalars : Operator → K → K → K
  | plus, x, y => x + y
  | minus, x, y => x - y
  | times, x, y => x * y
  | divide, x, y => x / y
  | power, x, y => Kernel.power x y

/-- A function on scalars. -/
def Func.onScalar : Func → K → K
  | abs => Kernel.abs
  | exp => Kernel.exp
  | sin => Kernel.sin
  | cos => Kernel.cos
  | tan => Kernel.tan
  | sinh => Kernel.sinh
  | cosh => Kernel.cosh
  | tanh => Kernel.tanh
  | log => Kernel.log
  | step => Kernel.step

section Literal

variable [Literal K]

/-- An operator on scalars by its spelling; the result is undefined for any other text. -/
def scalarBinary (symbol : String) (x y : K) : K :=
  match Operator.ofSymbol? symbol with
  | some op => op.onScalars x y
  | none => Literal.ofNumeral .undefined

/-- A function on a scalar by its name, negation among them; undefined for any other text. -/
def scalarUnary (symbol : String) (x : K) : K :=
  if symbol = "neg" then -x
  else match Func.ofSymbol? symbol with
    | some f => f.onScalar x
    | none => Literal.ofNumeral .undefined

end Literal

end Formula
