import Formula.Postfix.OfInfix
import Formula.Token.Lexer

/-!
Reading a formula into postfix order.  The sequence is accepted when replaying it never lacks an
operand and leaves exactly one value.
-/

namespace Formula

/-! ### Operand count -/

/-- The number of operands that a kind of token takes; parentheses have no place in a sequence. -/
def TokenKind.arity? : TokenKind → Option Nat
  | number | identifier => some 0
  | function => some 1
  | operator => some 2
  | leftParen | rightParen => none

/-- The number of values that a sequence leaves on top of a given number, unless it lacks some. -/
def depthAfter? (depth : Nat) : List Token → Option Nat
  | [] => some depth
  | t :: ts => do
    let arity ← t.kind.arity?
    if depth < arity then none else depthAfter? (depth + 1 - arity) ts

/-- Whether a sequence makes exactly one value. -/
def isWellFormed (sequence : List Token) : Bool := depthAfter? 0 sequence == some 1

/-! ### Parsing -/

/-- The postfix sequence of a formula. -/
def parse (source : String) : Except Fault (List Token) := do
  let tokens ← tokenize source
  let sequence ← toPostfix (completeSigns tokens)
  if isWellFormed sequence then return sequence else throw (.mismatched source)

end Formula
