import Formula.Postfix.Evaluate
import Formula.Tree.Basic

/-!
The value of a tree: operands first, from the left, then the operator or function.
-/

namespace Formula.Term

variable {K : Type} [Kernel K]

/-- The value of a tree, given values for its variables. -/
def evaluate (env : Environment K) : Tree K → Except Fault (Numeric K)
  | constant c => .ok (.real c)
  | var x => valueOf env x
  | binary op left right => do
    let z ← left.evaluate env
    let w ← right.evaluate env
    return op.apply z w
  | unary f arg => do
    let z ← arg.evaluate env
    return f.apply z

end Formula.Term
