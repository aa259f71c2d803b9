import Formula.Token.Scanner

/-!
Cutting a formula into tokens.  The parentheses are checked first; then the tokens are taken from
the front one by one, with spaces between them skipped.
-/

namespace Formula

/-! ### Balanced parentheses -/

/-- Whether the parentheses balance when a number of them is open already. -/
def balancedFrom : Nat → List Char → Bool
  | depth, [] => depth == 0
  | depth, '(' :: cs => balancedFrom (depth + 1) cs
  | 0, ')' :: _ => false
  | depth + 1, ')' :: cs => balancedFrom depth cs
  | depth, _ :: cs => balancedFrom depth cs

/-- Whether every closing parenthesis closes an open one and none stays open. -/
def isBalanced (source : String) : Bool := balancedFrom 0 source.toList

/-! ### Tokens -/

/-- Where the lexer cannot go on: inside a number, or before a character that begins no token; with
the characters from there on. -/
inductive Stuck
  | inNumber (rest : List Char)
  | atCharacter (c : Char) (rest : List Char)
  deriving DecidableEq, Repr

/-- The kind of token that a character makes on its own. -/
def TokenKind.ofChar? (c : Char) : Option TokenKind :=
  if (Operator.ofChar? c).isSome then some .operator
  else if c = '(' then some .leftParen
  else if c = ')' then some .rightParen
  else none

/-- The tokens of a list of characters. -/
def lex : List Char → Except Stuck (List Token)
  | [] => .ok []
  | c :: cs =>
    if hd : c.isDigit then
      match h : Scan.number (c :: cs) with
      | .ok s =>
        have := Scan.number_rest_length hd h
        (⟨.number, String.ofList s.text⟩ :: ·) <$> lex s.rest
      | .error rest => .error (.inNumber rest)
    else if hl : c.isAlpha then
      let s := Scan.identifier (c :: cs)
      have := Scan.identifier_rest_length (c := c) cs (by simp [Char.isAlphanum, hl])
      (⟨.identifier, String.ofList s.text⟩ :: ·) <$> lex s.rest
    else match TokenKind.ofChar? c with
      | some kind => (⟨kind, c.toString⟩ :: ·) <$> lex cs
      | none => if c = ' ' then lex cs else .error (.atCharacter c (c :: cs))
termination_by cs => cs.length
decreasing_by
  · exact this
  · exact this
  · exact Nat.lt_succ_self _
  · exact Nat.lt_succ_self _

/-- The tokens of a formula. -/
def tokenize (source : String) : Except Fault (List Token) :=
  let cs := source.toList
  if isBalanced source then
    match lex cs with
    | .ok tokens => .ok tokens
    | .error (.inNumber rest) => .error (.badNumber source ↑(cs.length - rest.length))
    | .error (.atCharacter c rest) => .error (.badCharacter source ↑(cs.length - rest.length) c)
  else .error (.unbalanced source)

end Formula
