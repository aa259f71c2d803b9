import Formula.Number.Kernel

/-!
The doubles as scalars.  A finite double is an integer times a power of two, read off its bits; its
numeral has the fewest digits that denote it, and of two such numerals the nearer one.
-/

namespace Formula

namespace Double

/-! ### The exact value -/

/-- The magnitude of a finite double: a natural number and the power of two that scales it. -/
def magnitude (x : Float) : Nat × Int :=
  let bits := x.toBits.toNat
  let exponent := bits / twoPow 52 % twoPow 11
  let fraction := bits % twoPow 52
  if exponent = 0 then (fraction, -1074) else (fraction + twoPow 52, (exponent : Int) - 1075)

/-- Whether the sign bit is set. -/
def isNegative (x : Float) : Bool := x.toBits.toNat / twoPow 63 == 1

/-- The magnitude as a fraction. -/
def fraction (x : Float) : Nat × Nat :=
  let (m, e) := magnitude x
  (m * twoPow e.toNat, twoPow (-e).toNat)

/-- The double as an integer, when it is finite and has no fractional part. -/
def integer? (x : Float) : Option Int :=
  let (num, den) := fraction x
  if x.isFinite && num % den = 0 then
    some (if isNegative x then -(num / den : Nat) else (num / den : Nat))
  else none

/-! ### Reading a numeral -/

/-- The double nearest to a decimal. -/
def ofDecimal (d : Decimal) : Float :=
  let d := d.trimmed
  Float.ofScientific d.mantissa (d.exponent < 0) d.exponent.natAbs

/-- The double that a numeral denotes. -/
def ofNumeral : Numeral → Float
  | .finite negative d => if negative then -(ofDecimal d) else ofDecimal d
  | .infinite negative => if negative then -(1.0 / 0.0) else 1.0 / 0.0
  | .undefined => 0.0 / 0.0

/-! ### The shortest numeral -/

/-- The power of ten of the leading digit of a positive fraction. -/
def leading (num den : Nat) : Int :=
  if den ≤ num then (Nat.toDigits 10 (num / den)).length - 1
  else -((Nat.toDigits 10 ((den - 1) / num)).length : Int)

/-- The decimals of a given number of digits next below and next above a positive fraction, each
with its distance in units of one scale; the first is the fraction itself if it has so few
digits. -/
def neighbours (num den digits : Nat) : (Decimal × Nat) × (Decimal × Nat) :=
  let exponent := leading num den - digits + 1
  let scaled := num * tenPow (-exponent).toNat
  let unit := den * tenPow exponent.toNat
  let below := scaled / unit
  let excess := scaled % unit
  ((⟨below, exponent⟩, excess), (⟨below + 1, exponent⟩, unit - excess))

/-- Of the neighbours with a given number of digits the one that denotes a positive double: the
nearer if both do, and of two equally near ones that with the even last digit. -/
def withDigits? (x : Float) (num den digits : Nat) : Option Decimal :=
  let (low, high) := neighbours num den digits
  let denotes (d : Decimal) : Bool := ofDecimal d == x
  match denotes low.1, denotes high.1 with
  | true, true =>
    if low.2 < high.2 || (low.2 == high.2 && low.1.mantissa % 2 == 0) then some low.1
    else some high.1
  | true, false => some low.1
  | false, true => some high.1
  | false, false => none

/-- The digits of a fraction over a power of two, all of them. -/
def allDigits (num den : Nat) : Decimal := ⟨num * Nat.pow 5 den.log2, -den.log2⟩

/-- The shortest decimal that denotes a positive double: seventeen digits are always enough. -/
def shortest (x : Float) : Decimal :=
  let (num, den) := fraction x
  let candidate := (List.range 17).findSome? fun n => withDigits? x num den (n + 1)
  (candidate.getD (allDigits num den)).trimmed

/-- The shortest numeral that denotes a double. -/
def toNumeral (x : Float) : Numeral :=
  if x.isNaN then .undefined
  else if x.isFinite then
    .finite (isNegative x) (if x == 0.0 then ⟨0, 0⟩ else shortest x.abs)
  else .infinite (isNegative x)

end Double

/-! ### The scalars -/

/-- The functions on doubles that a platform computes in its own way. -/
structure Library where
  power : Float → Float → Float
  exp : Float → Float
  log : Float → Float
  sin : Float → Float
  cos : Float → Float
  tan : Float → Float
  sinh : Float → Float
  cosh : Float → Float
  tanh : Float → Float
  atan : Float → Float

/-- The functions of the platform at hand. -/
def Library.platform : Library where
  power := Float.pow
  exp := Float.exp
  log := Float.log
  sin := Float.sin
  cos := Float.cos
  tan := Float.tan
  sinh := Float.sinh
  cosh := Float.cosh
  tanh := Float.tanh
  atan := Float.atan

/-- Doubles that compute with a library. -/
def Doubles (_lib : Library) : Type := Float

instance (lib : Library) : Kernel (Doubles lib) where
  zero := (0.0 : Float)
  one := (1.0 : Float)
  add := Float.add
  sub := Float.sub
  mul := Float.mul
  div := Float.div
  neg := Float.neg
  power := lib.power
  abs := Float.abs
  exp := lib.exp
  log := lib.log
  sin := lib.sin
  cos := lib.cos
  tan := lib.tan
  sinh := lib.sinh
  cosh := lib.cosh
  tanh := lib.tanh
  atan := lib.atan
  sqrt := Float.sqrt
  pi := (3.141592653589793 : Float)
  eq := Float.beq
  lt := Float.lt
  le := Float.le
  isFinite := Float.isFinite
  integer? := Double.integer?

instance (lib : Library) : Literal (Doubles lib) where
  ofNumeral := Double.ofNumeral
  toNumeral := Double.toNumeral

/-- Doubles by themselves compute with the platform. -/
instance : Kernel Float := inferInstanceAs (Kernel (Doubles Library.platform))

instance : Literal Float := inferInstanceAs (Literal (Doubles Library.platform))

end Formula
