import Formula.Fault
import Formula.Tree.Infix
import Formula.Tree.Simplify

/-!
Symbolic derivatives.  A tree is simplified before it is differentiated, at every level, and so is
every result; the recursion ends because simplifying makes no tree larger.
-/

namespace Formula

/-- Why a tree has no derivative by the rules. -/
inductive Gap (κ : Type)
  /-- A function without a rule is applied to something that depends on the variable. -/
  | noRule (f : Func)
  /-- A power depends on the variable and its exponent is not an integer constant. -/
  | openExponent (exponent : Tree κ)
  deriving DecidableEq, Repr

/-- The fault of a tree without a derivative. -/
def Gap.toFault {K : Type} [Literal K] : Gap K → Fault
  | noRule f => .noRule f
  | openExponent exponent => .openExponent exponent.toInfix

section Rules

variable {κ : Type} [Constant κ]

open Term

/-- The derivative of a function at an argument. -/
def Func.derivative? : Func → Option (Tree κ → Tree κ)
  | sin => some fun u => unary cos u
  | cos => some fun u => binary .times (number (-1)) (unary sin u)
  | exp => some fun u => unary exp u
  | log => some fun u => binary .divide (number 1) u
  | tan => some fun u => binary .plus (number 1) (binary .power (unary tan u) (number 2))
  | step => some fun _ => number 0
  | abs | sinh | cosh | tanh => none

/-- The constant of a tree that is an integer constant. -/
def Term.integerConstant? : Tree κ → Option κ
  | constant c => if Constant.isInteger c then some c else none
  | _ => none

/-- The derivative by a variable.  A tree without the variable has derivative zero, whatever is in
it; the variable may also be spelled like a symbol, which then counts as an occurrence. -/
def Term.differentiate (x : String) (passes : Int) (t : Tree κ) : Except (Gap κ) (Tree κ) :=
  match h : t.simplify passes with
  | constant _ => .ok (number 0)
  | var y => .ok (number (if y = x then 1 else 0))
  | binary op u v =>
    have hs : 1 + (u.size + v.size) ≤ t.size := by
      have := size_simplify_le passes t
      rwa [h] at this
    if (binary op u v).contains x then
      match op with
      | .plus | .minus => do
        let du ← u.differentiate x passes
        let dv ← v.differentiate x passes
        return (binary op du dv).simplify passes
      | .times => do
        let du ← u.differentiate x passes
        let dv ← v.differentiate x passes
        return (binary .plus (binary .times du v) (binary .times u dv)).simplify passes
      | .power =>
        match v.integerConstant? with
        | none => .error (.openExponent v)
        | some n => do
          let du ← u.differentiate x passes
          let outer := binary .times (constant n) (binary .power u (constant (Constant.pred n)))
          return (binary .times outer du).simplify passes
      | .divide => do
        let du ← u.differentiate x passes
        let dv ← v.differentiate x passes
        let correction :=
          binary .times (binary .power v (number (-2))) (binary .times u dv)
        return (binary .minus (binary .divide du v) correction).simplify passes
    else .ok (number 0)
  | unary f u =>
    have hs : 1 + u.size ≤ t.size := by
      have := size_simplify_le passes t
      rwa [h] at this
    if (unary f u).contains x then
      match (f.derivative? : Option (Tree κ → Tree κ)) with
      | none => .error (.noRule f)
      | some rule => do
        let du ← u.differentiate x passes
        return (binary .times (rule u) du).simplify passes
    else .ok (number 0)
termination_by t.size
decreasing_by all_goals omega

end Rules

end Formula
