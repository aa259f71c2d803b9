import Formula.Fault
import Formula.Number.Numeric

/-!
Quantities as callers hand them over: values, integers of any size, and pairs of a real and an
imaginary part.  Integers are rounded to scalars when an operation needs them, and fail to be if
no scalar is large enough.  Pairs have to be made values before an operation takes them.
-/

namespace Formula

/-- A quantity that stands for a value. -/
inductive Quantity (K : Type)
  | value (z : Numeric K)
  | integer (n : Int)
  | pair (re im : K)
  deriving Repr

namespace Quantity

variable {K : Type} [Kernel K] [Literal K]

/-- The scalar nearest to an integer, if it is in range. -/
def scalarOfInt (n : Int) : Except Fault K :=
  let x : K := Literal.ofNumeral (Numeral.ofInt n)
  if Kernel.isFinite x then .ok x else .error .integerTooLarge

/-- The value that a quantity stands for. -/
def toNumeric : Quantity K → Except Fault (Numeric K)
  | value z => .ok z
  | integer n => Numeric.real <$> scalarOfInt n
  | pair re im => .ok (.complex ⟨re, im⟩)

/-- The name of a kind of quantity in messages. -/
def kindName : Quantity K → String
  | value (.real _) => "float"
  | value (.complex _) => "Complex"
  | integer _ => "int"
  | pair .. => "complex"

/-- The scalar that a real quantity stands for. -/
def toScalar : Quantity K → Except Fault K
  | value (.real x) => .ok x
  | integer n => scalarOfInt n
  | q => .error (.notReal q.kindName)

/-- The value that an operation takes a quantity for: any but a pair. -/
def operand : Quantity K → Except Fault (Numeric K)
  | value z => .ok z
  | q => Numeric.real <$> q.toScalar

/-- An operation of two values applied to quantities, the first one taken first. -/
def lift₂ (operation : Numeric K → Numeric K → Numeric K) (z w : Quantity K) :
    Except Fault (Quantity K) := do
  let z ← z.operand
  let w ← w.operand
  return value (operation z w)

/-- A function of one value applied to a quantity. -/
def lift₁ (function : Numeric K → Numeric K) (z : Quantity K) : Except Fault (Quantity K) := do
  let z ← z.operand
  return value (function z)

/-- The description of a pair: the sum of both parts, or the imaginary part alone if the real one
is a zero without a minus. -/
def pairDescription (re im : Numeral) : String :=
  let imText := im.bareText
  if re = .ofInt 0 then imText ++ "j"
  else
    let plus := if imText.startsWith "-" then "" else "+"
    "(" ++ re.bareText ++ plus ++ imText ++ "j)"

/-- The description of a quantity; a real value is described by its text. -/
def description : Quantity K → String
  | value (.real x) => (Literal.toNumeral x).plainText
  | value (.complex z) => z.description
  | integer n => toString n
  | pair re im => pairDescription (Literal.toNumeral re) (Literal.toNumeral im)

end Quantity

/-! ### Bindings -/

/-- Names with the quantities given for them. -/
abbrev Bindings (K : Type) := List (String × Quantity K)

/-- Names with the values bound to them. -/
abbrev Environment (K : Type) := List (String × Numeric K)

/-- Converts every quantity, also of names that nothing asks for. -/
def Bindings.toEnvironment {K : Type} [Kernel K] [Literal K] (bindings : Bindings K) :
    Except Fault (Environment K) :=
  bindings.mapM fun (name, quantity) => do
    let z ← quantity.toNumeric
    return (name, z)

/-- Values as quantities. -/
def Environment.toBindings {K : Type} (env : Environment K) : Bindings K :=
  env.map fun (name, z) => (name, .value z)

theorem Environment.lookup_toBindings {K : Type} (env : Environment K) (x : String) :
    env.toBindings.lookup x = (env.lookup x).map Quantity.value := by
  induction env with
  | nil => rfl
  | cons entry env ih =>
    obtain ⟨name, z⟩ := entry
    simp only [toBindings, List.map_cons, List.lookup_cons] at ih ⊢
    cases x == name
    · exact ih
    · rfl

end Formula
