import Formula.Fault
import Formula.Token.Basic

/-!
Replaying a postfix sequence on a stack.  What the tokens make, whether numbers, trees or text, is
up to a machine; the order of operands and the faults of malformed sequences are the same for all.
-/

namespace Formula

/-- What each token of a postfix sequence makes of the values before it. -/
structure Machine (α : Type) where
  number : String → Except Fault α
  name : String → Except Fault α
  operator : String → α → α → Except Fault α
  function : String → α → Except Fault α
  /-- The fault of a function without an argument. -/
  noArgument : String → Fault
  /-- The fault of a sequence that leaves other than one value. -/
  leftover : Nat → Fault

namespace Machine

variable {α : Type} (m : Machine α)

/-- The stack after a token; its first element is on top. -/
def step : List α → Token → Except Fault (List α)
  | stack, ⟨.number, text⟩ => (· :: stack) <$> m.number text
  | stack, ⟨.identifier, text⟩ => (· :: stack) <$> m.name text
  | right :: left :: stack, ⟨.operator, text⟩ => (· :: stack) <$> m.operator text left right
  | _, ⟨.operator, text⟩ => .error (.missingOperand text)
  | arg :: stack, ⟨.function, text⟩ => (· :: stack) <$> m.function text arg
  | [], ⟨.function, text⟩ => .error (m.noArgument text)
  | _, ⟨.leftParen, text⟩ => .error (.strayToken text)
  | _, ⟨.rightParen, text⟩ => .error (.strayToken text)

/-- The stack after a sequence. -/
def run (stack : List α) (sequence : List Token) : Except Fault (List α) :=
  sequence.foldlM m.step stack

/-- The one value that a sequence makes. -/
def replay (sequence : List Token) : Except Fault α := do
  match ← m.run [] sequence with
  | [value] => return value
  | stack => throw (m.leftover stack.length)

@[simp] theorem run_nil (stack : List α) : m.run stack [] = .ok stack := rfl

theorem run_cons (stack : List α) (t : Token) (ts : List Token) :
    m.run stack (t :: ts) = m.step stack t >>= fun stack => m.run stack ts := rfl

theorem run_append (stack : List α) (s t : List Token) :
    m.run stack (s ++ t) = m.run stack s >>= fun stack => m.run stack t :=
  List.foldlM_append

end Machine

/-- Looks up a symbol in a part of the vocabulary. -/
def lookUp {α : Type} (find : String → Option α) (symbol : String) : Except Fault α :=
  match find symbol with
  | some found => .ok found
  | none => .error (.unknownSymbol symbol)

@[simp] theorem lookUp_operator (op : Operator) : lookUp Operator.ofSymbol? op.symbol = .ok op := by
  simp only [lookUp, Operator.ofSymbol?_symbol]

@[simp] theorem lookUp_func (f : Func) : lookUp Func.ofSymbol? f.symbol = .ok f := by
  simp only [lookUp, Func.ofSymbol?_symbol]

end Formula
