/-!
The symbols of a formula: five binary operators and ten functions of one argument, their spelling
and their rank.  A higher rank binds tighter, and a function binds tighter than every operator.
-/

namespace Formula

/-! ### Operators -/

/-- The binary operators. -/
inductive Operator
  | power | times | divide | plus | minus
  deriving DecidableEq, Repr, Inhabited

namespace Operator

/-- The character that spells an operator. -/
def char : Operator → Char
  | power => '^'
  | times => '*'
  | divide => '/'
  | plus => '+'
  | minus => '-'

/-- The operator that a character spells, if any. -/
def ofChar? : Char → Option Operator
  | '^' => some power
  | '*' => some times
  | '/' => some divide
  | '+' => some plus
  | '-' => some minus
  | _ => none

/-- The text that spells an operator. -/
def symbol : Operator → String
  | power => "^"
  | times => "*"
  | divide => "/"
  | plus => "+"
  | minus => "-"

/-- The operator that a text spells, if any. -/
def ofSymbol? : String → Option Operator
  | "^" => some power
  | "*" => some times
  | "/" => some divide
  | "+" => some plus
  | "-" => some minus
  | _ => none

/-- How tightly an operator binds. -/
def rank : Operator → Nat
  | power => 2
  | times | divide => 1
  | plus | minus => 0

/-- All operators. -/
def all : List Operator := [power, divide, times, plus, minus]

theorem mem_all (op : Operator) : op ∈ all := by cases op <;> decide

@[simp] theorem ofSymbol?_symbol (op : Operator) : ofSymbol? op.symbol = some op := by
  cases op <;> rfl

theorem ofSymbol?_eq_some {s : String} {op : Operator} :
    ofSymbol? s = some op ↔ s = op.symbol := by
  constructor
  · intro h
    unfold ofSymbol? at h
    split at h <;> simp at h <;> subst h <;> rfl
  · rintro rfl
    simp

@[simp] theorem ofChar?_char (op : Operator) : ofChar? op.char = some op := by
  cases op <;> rfl

theorem ofChar?_eq_some {c : Char} {op : Operator} : ofChar? c = some op ↔ c = op.char := by
  constructor
  · intro h
    unfold ofChar? at h
    split at h <;> simp at h <;> subst h <;> rfl
  · rintro rfl
    simp

theorem symbol_injective {op op' : Operator} (h : op.symbol = op'.symbol) : op = op' := by
  have := congrArg ofSymbol? h
  simpa using this

end Operator

/-! ### Functions -/

/-- The functions of one argument. -/
inductive Func
  | abs | exp | sin | cos | tan | sinh | cosh | tanh | log | step
  deriving DecidableEq, Repr, Inhabited

namespace Func

/-- The name of a function. -/
def symbol : Func → String
  | abs => "abs"
  | exp => "exp"
  | sin => "sin"
  | cos => "cos"
  | tan => "tan"
  | sinh => "sinh"
  | cosh => "cosh"
  | tanh => "tanh"
  | log => "log"
  | step => "step"

/-- The function that a text names, if any. -/
def ofSymbol? : String → Option Func
  | "abs" => some abs
  | "exp" => some exp
  | "sin" => some sin
  | "cos" => some cos
  | "tan" => some tan
  | "sinh" => some sinh
  | "cosh" => some cosh
  | "tanh" => some tanh
  | "log" => some log
  | "step" => some step
  | _ => none

/-- All functions. -/
def all : List Func := [abs, exp, sin, cos, tan, sinh, cosh, tanh, log, step]

theorem mem_all (f : Func) : f ∈ all := by cases f <;> decide

@[simp] theorem ofSymbol?_symbol (f : Func) : ofSymbol? f.symbol = some f := by
  cases f <;> rfl

theorem ofSymbol?_eq_some {s : String} {f : Func} :
    ofSymbol? s = some f ↔ s = f.symbol := by
  constructor
  · intro h
    unfold ofSymbol? at h
    split at h <;> simp at h <;> subst h <;> rfl
  · rintro rfl
    simp

theorem symbol_injective {f f' : Func} (h : f.symbol = f'.symbol) : f = f' := by
  have := congrArg ofSymbol? h
  simpa using this

end Func

/-! ### Symbols -/

/-- Whether a text spells an operator. -/
def isOperator (symbol : String) : Bool := (Operator.ofSymbol? symbol).isSome

/-- Whether a text names a function. -/
def isFunctionName (symbol : String) : Bool := (Func.ofSymbol? symbol).isSome

/-- The rank of a symbol; texts outside the vocabulary have none. -/
def rank? (symbol : String) : Option Nat :=
  match Operator.ofSymbol? symbol with
  | some op => some op.rank
  | none => if isFunctionName symbol then some 3 else none

theorem rank?_operator (op : Operator) : rank? op.symbol = some op.rank := by
  simp [rank?]

theorem rank?_function (f : Func) : rank? f.symbol = some 3 := by
  cases f <;> rfl

end Formula
