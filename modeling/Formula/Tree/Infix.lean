import Formula.Number.Kernel
import Formula.Number.Layout
import Formula.Tree.Basic

/-!
Trees as text.  Operators group to the left: a left operand is put into parentheses when its
operator binds less tightly, a right operand also when it binds equally tightly.
-/

namespace Formula

/-- A text in parentheses, if so asked. -/
def parenthesize (wanted : Bool) (text : String) : String :=
  if wanted then "(" ++ text ++ ")" else text

namespace Term

variable {K : Type} [Literal K]

/-- The rank of the operator at the root, if there is one. -/
def rank? {φ κ : Type} : Term Operator φ κ → Option Nat
  | binary op _ _ => some op.rank
  | _ => none

/-- The formula that a tree is read from. -/
def toInfix : Tree K → String
  | constant c => (Literal.toNumeral c).constantText
  | var x => x
  | binary op left right =>
    parenthesize (left.rank?.any (· < op.rank)) left.toInfix ++ op.symbol ++
      parenthesize (right.rank?.any (· ≤ op.rank)) right.toInfix
  | unary f arg => f.symbol ++ "(" ++ arg.toInfix ++ ")"

end Term

end Formula
