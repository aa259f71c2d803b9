import Formula.Number.Complex

/-!
The values of formulas: scalars and complex numbers side by side.  Two scalars are combined as
scalars; as soon as one operand is complex the other is taken to the complex plane.
-/

namespace Formula

/-- A value: a scalar or a complex number. -/
inductive Numeric (K : Type)
  | real (x : K)
  | complex (z : Complex K)
  deriving DecidableEq, Repr

instance {K : Type} [Inhabited K] : Inhabited (Numeric K) := ⟨.real default⟩

namespace Numeric

variable {K : Type} [Kernel K]

/-- A value as a complex number. -/
def promote : Numeric K → Complex K
  | real x => Complex.ofReal x
  | complex z => z

@[simp] theorem promote_real (x : K) : (real x).promote = Complex.ofReal x := rfl

@[simp] theorem promote_complex (z : Complex K) : (complex z).promote = z := rfl

/-! ### Operations of two values -/

/-- Combines two values by one rule for scalars and one for complex numbers. -/
def combine (onScalars : K → K → K) (onComplex : Complex K → Complex K → Complex K) :
    Numeric K → Numeric K → Numeric K
  | real x, real y => real (onScalars x y)
  | z, w => complex (onComplex z.promote w.promote)

instance : Add (Numeric K) := ⟨combine (· + ·) (· + ·)⟩

instance : Sub (Numeric K) := ⟨combine (· - ·) (· - ·)⟩

instance : Mul (Numeric K) := ⟨combine (· * ·) (· * ·)⟩

instance : Div (Numeric K) := ⟨combine (· / ·) (· / ·)⟩

/-- A power of two scalars is a scalar unless it needs the complex plane. -/
def pow : Numeric K → Numeric K → Numeric K
  | real x, real y =>
    if Complex.needsComplexPower x y then
      complex (Complex.pow (Complex.ofReal x) (Complex.ofReal y))
    else real (Kernel.power x y)
  | z, w => complex (Complex.pow z.promote w.promote)

/-! ### Functions of one value -/

/-- Applies one rule to a scalar and another to a complex number. -/
def map (onScalar : K → K) (onComplex : Complex K → Complex K) : Numeric K → Numeric K
  | real x => real (onScalar x)
  | complex z => complex (onComplex z)

def exp : Numeric K → Numeric K := map Kernel.exp Complex.exp

def log : Numeric K → Numeric K := map Kernel.log Complex.log

def sin : Numeric K → Numeric K := map Kernel.sin Complex.sin

def cos : Numeric K → Numeric K := map Kernel.cos Complex.cos

def tan : Numeric K → Numeric K := map Kernel.tan Complex.tan

def sinh : Numeric K → Numeric K := map Kernel.sinh Complex.sinh

def cosh : Numeric K → Numeric K := map Kernel.cosh Complex.cosh

def tanh : Numeric K → Numeric K := map Kernel.tanh Complex.tanh

instance : Neg (Numeric K) := ⟨map (- ·) (- ·)⟩

/-- The absolute value, a scalar. -/
def abs : Numeric K → Numeric K
  | real x => real (Kernel.abs x)
  | complex z => real z.abs

/-- One where the real part is not negative, zero elsewhere. -/
def step : Numeric K → Numeric K
  | real x => real (Kernel.step x)
  | complex z => real (Kernel.step z.re)

/-- The boost of an event, a time and a place, by a rapidity. -/
def boost (rapidity t x : Numeric K) : Numeric K × Numeric K :=
  (cosh rapidity * t + sinh rapidity * x, sinh rapidity * t + cosh rapidity * x)

end Numeric

/-! ### The vocabulary on values -/

variable {K : Type} [Kernel K]

/-- What an operator does to two values. -/
def Operator.apply : Operator → Numeric K → Numeric K → Numeric K
  | plus, z, w => z + w
  | minus, z, w => z - w
  | times, z, w => z * w
  | divide, z, w => z / w
  | power, z, w => z.pow w

/-- What a function does to a value. -/
def Func.apply : Func → Numeric K → Numeric K
  | abs => Numeric.abs
  | exp => Numeric.exp
  | sin => Numeric.sin
  | cos => Numeric.cos
  | tan => Numeric.tan
  | sinh => Numeric.sinh
  | cosh => Numeric.cosh
  | tanh => Numeric.tanh
  | log => Numeric.log
  | step => Numeric.step

end Formula
