import Formula.Number.Kernel
import Formula.Number.Layout

/-!
Complex numbers over a kernel: arithmetic by components, division by way of the conjugate, the
principal argument, and the elementary functions reduced to the exponential.
-/

namespace Formula

/-- A complex number; one with imaginary part zero is still complex. -/
structure Complex (K : Type) where
  re : K
  im : K
  deriving DecidableEq, Repr, Inhabited

namespace Complex

variable {K : Type} [Kernel K]

/-- A scalar on the real axis. -/
def ofReal (x : K) : Complex K := ⟨x, 0⟩

/-- A scalar on the imaginary axis. -/
def ofImag (y : K) : Complex K := ⟨0, y⟩

/-- The imaginary unit. -/
def i : Complex K := ofImag 1

/-! ### Arithmetic -/

instance : Add (Complex K) := ⟨fun z w => ⟨z.re + w.re, z.im + w.im⟩⟩

instance : Sub (Complex K) := ⟨fun z w => ⟨z.re - w.re, z.im - w.im⟩⟩

instance : Neg (Complex K) := ⟨fun z => ⟨-z.re, -z.im⟩⟩

instance : Mul (Complex K) :=
  ⟨fun z w => ⟨z.re * w.re - z.im * w.im, z.re * w.im + z.im * w.re⟩⟩

/-- The number with its imaginary part negated. -/
def conj (z : Complex K) : Complex K := ⟨z.re, -z.im⟩

/-- The square of the absolute value. -/
def abs2 (z : Complex K) : K := z.re * z.re + z.im * z.im

/-- The absolute value. -/
def abs (z : Complex K) : K := Kernel.sqrt z.abs2

/-- One over the square of the absolute value. -/
def inverseAbs2 (z : Complex K) : K := 1 / z.abs2

instance : Div (Complex K) := ⟨fun z w => z * (ofReal w.inverseAbs2 * w.conj)⟩

section Components

variable (z w : Complex K)

theorem add_def : z + w = ⟨z.re + w.re, z.im + w.im⟩ := rfl

theorem sub_def : z - w = ⟨z.re - w.re, z.im - w.im⟩ := rfl

theorem neg_def : -z = ⟨-z.re, -z.im⟩ := rfl

theorem mul_def : z * w = ⟨z.re * w.re - z.im * w.im, z.re * w.im + z.im * w.re⟩ := rfl

theorem div_def : z / w = z * (ofReal w.inverseAbs2 * w.conj) := rfl

end Components

/-! ### Argument, exponential and logarithm -/

/-- The angle of the point with the given coordinates, from the positive real axis.  On the
imaginary axis it is a quarter turn to either side, and at zero a quarter turn upwards. -/
def argument (x y : K) : K :=
  if Kernel.eq x 0 then
    if Kernel.le 0 y then Kernel.pi / Kernel.two else -Kernel.pi / Kernel.two
  else
    let angle := Kernel.atan (y / x)
    if Kernel.lt x 0 then
      if Kernel.le 0 y then Kernel.pi + angle else -Kernel.pi + angle
    else angle

/-- The principal argument. -/
def arg (z : Complex K) : K := argument z.re z.im

/-- The exponential: a scaling by that of the real part and a turn by the imaginary part. -/
def exp (z : Complex K) : Complex K :=
  let scale := Kernel.exp z.re
  ⟨scale * Kernel.cos z.im, scale * Kernel.sin z.im⟩

/-- The principal logarithm. -/
def log (z : Complex K) : Complex K := ⟨Kernel.log z.abs, z.arg⟩

/-! ### Trigonometric and hyperbolic functions -/

def cos (z : Complex K) : Complex K :=
  ofReal Kernel.half * (exp (ofImag 1 * z) + exp (ofImag (-1) * z))

def sin (z : Complex K) : Complex K :=
  ofImag (-Kernel.half) * (exp (ofImag 1 * z) - exp (ofImag (-1) * z))

def tan (z : Complex K) : Complex K := sin z / cos z

def cosh (z : Complex K) : Complex K :=
  ofReal Kernel.half * (exp z + exp (ofReal (-1) * z))

def sinh (z : Complex K) : Complex K :=
  ofReal Kernel.half * (exp z - exp (ofReal (-1) * z))

def tanh (z : Complex K) : Complex K := sinh z / cosh z

/-! ### Powers -/

/-- A negative base has a scalar power only for exponents that are whole or not finite. -/
def needsComplexPower (base exponent : K) : Bool :=
  Kernel.lt base 0 && Kernel.isFinite exponent && !Kernel.isInteger exponent

/-- A power of two numbers on the real axis stays there if scalars allow it; any other goes by way
of the logarithm of the base. -/
def pow (z w : Complex K) : Complex K :=
  if Kernel.eq z.im 0 && Kernel.eq w.im 0 && !needsComplexPower z.re w.re then
    ofReal (Kernel.power z.re w.re)
  else exp (log z * w)

/-! ### Text -/

/-- The description of a complex number by its two parts. -/
def description {K : Type} [Literal K] (z : Complex K) : String :=
  "Complex(" ++ (Literal.toNumeral z.re).plainText ++ ", " ++
    (Literal.toNumeral z.im).plainText ++ ")"

end Complex

end Formula
