import Formula.Fault
import Formula.Token.Basic

/-!
From infix to postfix order.  A leading sign becomes an operation on the number zero; then the
operands keep their order and every operator and function moves behind its operands, held back on a
stack until a symbol that binds no tighter, or a closing parenthesis, releases it.
-/

namespace Formula

/-! ### Leading signs -/

/-- An operator token is a sign when its text is part of the text of the two signs. -/
def Token.isSign (t : Token) : Bool :=
  t.kind == .operator && (t.text == "" || t.text == "+" || t.text == "-" || t.text == "+-")

/-- Puts a zero before a sign that opens the list, if it may, or follows an opening parenthesis. -/
def insertZeros (opens : Bool) : List Token → List Token
  | [] => []
  | t :: ts =>
    let rest := t :: insertZeros (t.kind == .leftParen) ts
    if opens && t.isSign then Token.zero :: rest else rest

/-- Makes every leading sign an operation of two operands. -/
def completeSigns (tokens : List Token) : List Token := insertZeros true tokens

/-! ### The stack of held symbols -/

/-- The rank of a symbol, or a fault if it is outside the vocabulary. -/
def rankOf (symbol : String) : Except Fault Nat :=
  match rank? symbol with
  | some rank => .ok rank
  | none => .error (.unknownSymbol symbol)

@[simp] theorem rankOf_symbol (op : Operator) : rankOf op.symbol = .ok op.rank := by
  simp only [rankOf, rank?_operator]

/-- An identifier that names a function is a function. -/
def Token.classify (t : Token) : Token :=
  if t.kind = .identifier ∧ isFunctionName t.text then { t with kind := .function } else t

/-- Takes from the top of the stack what a new symbol releases: everything that binds at least as
tightly, up to an opening parenthesis. -/
def release (symbol : String) : List Token → Except Fault (List Token × List Token)
  | [] => .ok ([], [])
  | top :: stack =>
    if top.kind = .leftParen then .ok ([], top :: stack)
    else do
      let new ← rankOf symbol
      let held ← rankOf top.text
      if held < new then return ([], top :: stack)
      else
        let (released, kept) ← release symbol stack
        return (top :: released, kept)

/-- Takes from the top of the stack everything above an opening parenthesis, and drops that. -/
def releaseGroup (stack : List Token) : List Token × List Token :=
  (stack.takeWhile (·.kind != .leftParen), (stack.dropWhile (·.kind != .leftParen)).drop 1)

/-- What a token adds to the postfix sequence, and the stack after it. -/
def advance (stack : List Token) (t : Token) : Except Fault (List Token × List Token) :=
  match t.kind with
  | .number | .identifier => .ok ([t], stack)
  | .leftParen => .ok ([], t :: stack)
  | .rightParen => .ok (releaseGroup stack)
  | .operator | .function => do
    let (released, kept) ← release t.text stack
    return (released, t :: kept)

/-! ### Postfix order -/

/-- The postfix order of tokens when some symbols are held already. -/
def postfixFrom (stack : List Token) : List Token → Except Fault (List Token)
  | [] => .ok (stack.filter (·.kind != .leftParen))
  | t :: ts => do
    let (out, stack) ← advance stack t
    let rest ← postfixFrom stack ts
    return out ++ rest

/-- The postfix order of an infix token list. -/
def toPostfix (tokens : List Token) : Except Fault (List Token) :=
  postfixFrom [] (tokens.map Token.classify)

end Formula
