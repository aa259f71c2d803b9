import Formula.Number.Quantity
import Formula.Postfix.Machine
import Formula.Postfix.Parse

/-!
The value of a postfix sequence, given values for its variables.
-/

namespace Formula

section Evaluation

variable {K : Type} [Literal K]

/-- The scalar that the text of a number denotes. -/
def readScalar (text : String) : Except Fault K :=
  match Numeral.ofString? text with
  | some n => .ok (Literal.ofNumeral n)
  | none => .error (.notNumber text)

/-- The value bound to a name. -/
def valueOf (env : Environment K) (name : String) : Except Fault (Numeric K) :=
  match env.lookup name with
  | some z => .ok z
  | none => .error (.unbound name)

variable [Kernel K]

/-- The machine that computes values. -/
def evaluator (env : Environment K) : Machine (Numeric K) where
  number text := Numeric.real <$> readScalar text
  name := valueOf env
  operator symbol left right := do
    let op ← lookUp Operator.ofSymbol? symbol
    return op.apply left right
  function symbol arg := do
    let f ← lookUp Func.ofSymbol? symbol
    return f.apply arg
  noArgument := .missingOperand
  leftover := .leftoverValues

/-- The value of a postfix sequence.  All bindings are converted first, used or not. -/
def evaluate (sequence : List Token) (bindings : Bindings K) : Except Fault (Numeric K) := do
  let env ← bindings.toEnvironment
  (evaluator env).replay sequence

/-- The value of a formula. -/
def compute (source : String) (bindings : Bindings K) : Except Fault (Numeric K) := do
  let sequence ← parse source
  evaluate sequence bindings

end Evaluation

/-! ### Variables -/

/-- Names without repetition, in the order of their code points. -/
def sortNames (names : List String) : List String :=
  names.eraseDups.mergeSort fun a b => decide (a ≤ b)

/-- The variables of a postfix sequence, in the order of their first occurrences. -/
def freeVariables (sequence : List Token) : List String :=
  ((sequence.filter (·.kind == .identifier)).map Token.text).eraseDups

end Formula
