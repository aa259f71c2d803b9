import Formula.Postfix.Parse
import Formula.Tree.Basic

/-!
The infix grammar.  Its phrases are sorted by level: a sum is of level zero, a product of level one,
a power of level two, an application of a function of level three, and a number, a variable or a
sentence in parentheses of level four.  Every operator is of the level of its rank and groups to the
left.  A sentence is a sum that may begin with a sign.

A derivation has its tokens, `Sentence.tokens`, and the tree that it means, `Sentence.tree`, whose
constants are the texts of its numbers.
-/

namespace Formula

/-- The operators of a rank. -/
abbrev Ranked (n : Nat) := {op : Operator // op.rank = n}

/-- The derivations of the phrases of a level. -/
inductive Phrase : Nat → Type
  /-- A phrase of the next level, which binds tighter. -/
  | tighter {n : Nat} (p : Phrase (n + 1)) : Phrase n
  /-- An operator between a phrase of its own level and one that binds tighter. -/
  | join {n : Nat} (left : Phrase n) (op : Ranked n) (right : Phrase (n + 1)) : Phrase n
  /-- A function before the next number, variable or group. -/
  | apply (f : Func) (arg : Phrase 4) : Phrase 3
  | number (text : String) : Phrase 4
  | var (x : String) (free : isFunctionName x = false) : Phrase 4
  /-- A sentence in parentheses: a sum, with or without a sign before it. -/
  | group (sign : Option (Ranked 0)) (body : Phrase 0) : Phrase 4

/-- The derivations of whole formulas: a sum, with or without a sign before it. -/
structure Sentence where
  sign : Option (Ranked 0)
  body : Phrase 0

/-! ### Tokens -/

/-- The opening parenthesis. -/
def Token.opening : Token := ⟨.leftParen, "("⟩

/-- The closing parenthesis. -/
def Token.closing : Token := ⟨.rightParen, ")"⟩

/-- The token of a sign, if there is one. -/
def signTokens (sign : Option (Ranked 0)) : List Token :=
  sign.toList.map fun op => Token.ofOperator op.1

/-- The tokens of a phrase in their order in the text. -/
def Phrase.tokens : {n : Nat} → Phrase n → List Token
  | _, tighter p => p.tokens
  | _, join left op right => left.tokens ++ Token.ofOperator op.1 :: right.tokens
  | _, apply f arg => ⟨.identifier, f.symbol⟩ :: arg.tokens
  | _, number text => [⟨.number, text⟩]
  | _, var x _ => [⟨.identifier, x⟩]
  | _, group sign body => Token.opening :: (signTokens sign ++ body.tokens) ++ [Token.closing]

/-- The tokens of a sentence in their order in the text. -/
def Sentence.tokens (s : Sentence) : List Token := signTokens s.sign ++ s.body.tokens

/-! ### Trees -/

/-- What a sign before an operand makes of it: an operation on the literal zero. -/
def signed (sign : Option (Ranked 0)) (t : Tree String) : Tree String :=
  match sign with
  | none => t
  | some op => .binary op.1 (.constant "0") t

/-- The tree of a phrase.  A sign before a sum belongs to the first product in it. -/
def Phrase.tree (sign : Option (Ranked 0)) : {n : Nat} → Phrase n → Tree String
  | _, tighter p => signed sign (p.tree none)
  | _, join left op right => .binary op.1 (left.tree sign) (right.tree none)
  | _, apply f arg => .unary f (arg.tree none)
  | _, number text => .constant text
  | _, var x _ => .var x
  | _, group sign body => body.tree sign

/-- The tree of a sentence. -/
def Sentence.tree (s : Sentence) : Tree String := s.body.tree s.sign

/-- The tokens of a tree with every operator and function behind its operands. -/
def Term.postorder : Tree String → List Token
  | constant text => [⟨.number, text⟩]
  | var x => [⟨.identifier, x⟩]
  | binary op left right => left.postorder ++ right.postorder ++ [Token.ofOperator op]
  | unary f arg => arg.postorder ++ [Token.ofFunc f]

end Formula
