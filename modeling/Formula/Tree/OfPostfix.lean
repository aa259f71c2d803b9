import Formula.Postfix.Evaluate
import Formula.Tree.Basic

/-!
The tree of a postfix sequence.
-/

namespace Formula

/-- The operator of a node that is to be made. -/
def operatorOf (symbol : String) : Except Fault Operator :=
  match Operator.ofSymbol? symbol with
  | some op => .ok op
  | none => .error (.notOperator symbol)

/-- The function of a node that is to be made. -/
def funcOf (symbol : String) : Except Fault Func :=
  match Func.ofSymbol? symbol with
  | some f => .ok f
  | none => .error (.notFunction symbol)

@[simp] theorem operatorOf_symbol (op : Operator) : operatorOf op.symbol = .ok op := by
  simp only [operatorOf, Operator.ofSymbol?_symbol]

@[simp] theorem funcOf_symbol (f : Func) : funcOf f.symbol = .ok f := by
  simp only [funcOf, Func.ofSymbol?_symbol]

namespace Term

variable {K : Type} [Literal K]

/-- The machine that builds trees. -/
def builder : Machine (Tree K) where
  number text := constant <$> readScalar text
  name x := .ok (var x)
  operator symbol left right := do
    let op ← operatorOf symbol
    return binary op left right
  function symbol arg := do
    let f ← funcOf symbol
    return unary f arg
  noArgument := .missingOperand
  leftover := .leftoverTrees

/-- The tree of a postfix sequence. -/
def ofPostfix (sequence : List Token) : Except Fault (Tree K) := builder.replay sequence

end Term

end Formula
