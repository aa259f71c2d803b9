import Formula.Template.Flaw
import Formula.Text.Quoted
import Formula.Vocabulary

/-!
The ways in which reading, evaluating, simplifying and rendering a formula can fail.  A fault is a
cause; its wording is `Fault.message` and the sort of failure it belongs to is `Fault.kind`.
-/

namespace Formula

/-- The form of the root of a tree. -/
inductive RootForm
  | constant | var | binary | unary | foreign
  deriving DecidableEq, Repr

/-- The name of a form of root in messages and in descriptions of trees. -/
def RootForm.name : RootForm → String
  | constant => "ConstantNode"
  | var => "VariableNode"
  | binary => "BinaryOpNode"
  | unary => "UnaryOpNode"
  | foreign => "str"

/-- Why an operation failed. -/
inductive Fault
  /-- A number that is not well formed: scanning got stuck at the position. -/
  | badNumber (source : String) (position : Int)
  /-- A character that begins no token. -/
  | badCharacter (source : String) (position : Int) (c : Char)
  /-- A position beyond an end of a text. -/
  | pastEnd
  /-- The parentheses of the source do not balance. -/
  | unbalanced (source : String)
  /-- Operators and operands of the source do not fit together. -/
  | mismatched (source : String)
  /-- A variable has no value. -/
  | unbound (name : String)
  /-- A postfix sequence has too few operands before a symbol. -/
  | missingOperand (symbol : String)
  /-- A postfix sequence has no argument before a function. -/
  | missingArgument (symbol : String)
  /-- A token that has no place in a postfix sequence. -/
  | strayToken (text : String)
  /-- A postfix sequence ends with other than one value. -/
  | leftoverValues (count : Nat)
  /-- A postfix sequence ends with other than one tree. -/
  | leftoverTrees (count : Nat)
  /-- A symbol outside the vocabulary was looked up. -/
  | unknownSymbol (symbol : String)
  /-- An operator node was to be made with a symbol that is no operator. -/
  | notOperator (symbol : String)
  /-- A function node was to be made with a symbol that names no function. -/
  | notFunction (symbol : String)
  /-- A text that denotes no number. -/
  | notNumber (text : String)
  /-- An integer beyond the range of the scalars. -/
  | integerTooLarge
  /-- A quantity that is not real where a scalar is needed. -/
  | notReal (kind : String)
  /-- A tree with a symbol or a leaf that has no place in it. -/
  | malformedTree (root : RootForm)
  /-- A node has fewer children than asked for. -/
  | noSuchChild
  /-- A position that no text and no list is long enough for. -/
  | hugePosition
  /-- A traversal order that does not exist. -/
  | unknownOrder (order : String)
  /-- A bound on simplification passes that allows none. -/
  | tooFewPasses (passes : Int)
  /-- A template refers to an argument that it is not given. -/
  | noSuchArgument (index : Nat)
  /-- A template that is not well formed. -/
  | badTemplate (flaw : Template.Flaw)
  /-- A named part was asked of something that has no such part. -/
  | noPart (holder name : String)
  /-- A template refers to a character by something other than its index. -/
  | namedIndex
  /-- A field of a template is too wide for any text. -/
  | noRoom
  /-- A function that has no derivative rule. -/
  | noRule (f : Func)
  /-- A power whose exponent is not an integer constant. -/
  | openExponent (exponent : String)
  deriving DecidableEq, Repr

/-- The sorts of failure. -/
inductive FaultKind
  | lexical | grammatical | evaluation | derivation | value | lookup | overflow | index | part
  | mismatch | memory
  deriving DecidableEq, Repr

namespace Fault

open Text (quoted)

/-- The wording of a fault. -/
def message : Fault → String
  | badNumber source position =>
    "Invalid numerical value at position " ++ toString position ++ " in " ++ quoted source
  | badCharacter source position c =>
    "Unexpected character " ++ quoted c.toString ++ " at position " ++ toString position ++
      " in " ++ quoted source
  | pastEnd => "string index out of range"
  | unbalanced source => "Unbalanced parentheses in " ++ quoted source
  | mismatched source => "Operators and operands do not match in " ++ quoted source
  | unbound name => "No value bound to variable '" ++ name ++ "'"
  | missingOperand symbol => "Missing operand for " ++ quoted symbol
  | missingArgument symbol => "Missing argument for " ++ quoted symbol
  | strayToken text => "Unexpected token " ++ quoted text ++ " in RPN sequence"
  | leftoverValues count =>
    "Malformed RPN sequence leaves " ++ toString count ++ " values on the stack"
  | leftoverTrees count =>
    "Malformed RPN sequence leaves " ++ toString count ++ " nodes on the stack"
  | unknownSymbol symbol => quoted symbol
  | notOperator symbol => "'" ++ symbol ++ "' is not a binary operator"
  | notFunction symbol => "'" ++ symbol ++ "' is not a supported function"
  | notNumber text => "could not convert string to float: " ++ quoted text
  | integerTooLarge => "int too large to convert to float"
  | notReal kind => "float() argument must be a string or a real number, not '" ++ kind ++ "'"
  | malformedTree root => "Malformed expression tree rooted at " ++ root.name
  | noSuchChild => "tuple index out of range"
  | hugePosition => "cannot fit 'int' into an index-sized integer"
  | unknownOrder order => "Invalid traversal_order: " ++ order
  | tooFewPasses passes => "simplify_max_passes must be at least 1, got " ++ toString passes
  | noSuchArgument index =>
    "Replacement index " ++ toString index ++ " out of range for positional args tuple"
  | badTemplate flaw => flaw.message
  | noPart holder name => "'" ++ holder ++ "' object has no attribute '" ++ name ++ "'"
  | namedIndex => "string indices must be integers, not 'str'"
  | noRoom => ""
  | noRule f => "No derivative rule for function '" ++ f.symbol ++ "'"
  | openExponent exponent =>
    "Only integer literal exponents can be differentiated, got '" ++ exponent ++ "'"

/-- The sort of failure a fault belongs to. -/
def kind : Fault → FaultKind
  | badNumber .. | badCharacter .. => .lexical
  | unbalanced _ | mismatched _ => .grammatical
  | unbound _ | missingOperand _ | missingArgument _ | strayToken _ | leftoverValues _
  | leftoverTrees _ => .evaluation
  | noRule _ | openExponent _ => .derivation
  | notOperator _ | notFunction _ | notNumber _ | malformedTree _ | unknownOrder _
  | tooFewPasses _ | badTemplate _ => .value
  | unknownSymbol _ => .lookup
  | integerTooLarge => .overflow
  | pastEnd | noSuchChild | hugePosition | noSuchArgument _ => .index
  | noPart .. => .part
  | namedIndex | notReal _ => .mismatch
  | noRoom => .memory

/-- Positions lie below this bound, and not below its negative. -/
def positionBound : Int := 9223372036854775808

/-- The fault of asking for a position where nothing is: the given one, unless the position is out
of all bounds. -/
def atPosition (position : Int) (f : Fault) : Fault :=
  if -positionBound ≤ position ∧ position < positionBound then f else hugePosition

/-- Where in its source a lexical fault lies. -/
def position? : Fault → Option Int
  | badNumber _ position | badCharacter _ position _ => some position
  | _ => none

/-- The symbol of the node that has no derivative. -/
def symbol? : Fault → Option String
  | noRule f => some f.symbol
  | openExponent _ => some Operator.power.symbol
  | _ => none

end Fault

end Formula
