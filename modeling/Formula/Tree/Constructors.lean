import Formula.Number.Kernel
import Formula.Number.Layout
import Formula.Tree.Basic

/-!
Trees as nested constructor calls for a computer algebra system that has sums, products and powers
only: a difference is a sum with a multiple by minus one, a quotient a product with an inverse.
Whole constants are integers, with all their digits.
-/

namespace Formula

/-- The constructor of a function. -/
def Func.constructorCall (f : Func) (arg : String) : String :=
  match f with
  | abs => "Abs(" ++ arg ++ ")"
  | step => "Heaviside(" ++ arg ++ ", 1)"
  | f => f.symbol ++ "(" ++ arg ++ ")"

/-- The constructor of a sum, a product or a power. -/
def constructorCall (name left right : String) : String :=
  name ++ "(" ++ left ++ ", " ++ right ++ ")"

/-- The constructor of an operator. -/
def Operator.constructorCall (op : Operator) (left right : String) : String :=
  match op with
  | plus => Formula.constructorCall "Add" left right
  | minus => Formula.constructorCall "Add" left (Formula.constructorCall "Mul" "-1" right)
  | times => Formula.constructorCall "Mul" left right
  | divide => Formula.constructorCall "Mul" left (Formula.constructorCall "Pow" right "-1")
  | power => Formula.constructorCall "Pow" left right

/-- The constructor of a constant. -/
def constantCall {K : Type} [Kernel K] [Literal K] (c : K) : String :=
  match Kernel.integer? c with
  | some n => "Integer(" ++ toString n ++ ")"
  | none => "Float(" ++ (Literal.toNumeral c).plainText ++ ")"

/-- The constructor of a variable. -/
def variableCall (name : String) : String := "Symbol(" ++ name ++ ")"

/-- A tree as nested constructor calls. -/
def Term.toConstructors {K : Type} [Kernel K] [Literal K] : Tree K → String
  | constant c => constantCall c
  | var x => variableCall x
  | binary op left right => op.constructorCall left.toConstructors right.toConstructors
  | unary f arg => f.constructorCall arg.toConstructors

end Formula
