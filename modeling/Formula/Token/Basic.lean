import Formula.Vocabulary

/-!
The characters and the tokens of a formula.  A token is a text with its kind; whether an identifier
names a function or a variable is settled after the text has been cut into tokens.
-/

namespace Formula

/-! ### Characters -/

/-- The classes of characters that matter to a formula. -/
inductive CharClass
  | digit | letter | operator | parenthesis | leftParenthesis | rightParenthesis | decimalPoint
  deriving DecidableEq, Repr

namespace CharClass

/-- All classes. -/
def all : List CharClass :=
  [digit, letter, operator, parenthesis, leftParenthesis, rightParenthesis, decimalPoint]

/-- Whether a character belongs to a class.  Digits and letters are those of ASCII. -/
def holds : CharClass → Char → Bool
  | digit, c => c.isDigit
  | letter, c => c.isAlpha
  | operator, c => (Operator.ofChar? c).isSome
  | parenthesis, c => c == '(' || c == ')'
  | leftParenthesis, c => c == '('
  | rightParenthesis, c => c == ')'
  | decimalPoint, c => c == '.'

end CharClass

/-! ### Tokens -/

/-- The kinds of token. -/
inductive TokenKind
  | number | identifier | function | operator | leftParen | rightParen
  deriving DecidableEq, Repr

/-- A piece of a formula. -/
structure Token where
  kind : TokenKind
  text : String
  deriving DecidableEq, Repr

namespace Token

/-- The number zero. -/
def zero : Token := ⟨.number, "0"⟩

/-- The token of an operator. -/
def ofOperator (op : Operator) : Token := ⟨.operator, op.symbol⟩

/-- The token of a function. -/
def ofFunc (f : Func) : Token := ⟨.function, f.symbol⟩

/-- The texts of tokens, separated by spaces. -/
def joinTexts (tokens : List Token) : String := " ".intercalate (tokens.map Token.text)

end Token

end Formula
