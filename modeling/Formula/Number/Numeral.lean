import Formula.Text.Digit

/-!
Numerals: exact decimal numbers with a sign, the two infinities and the undefined number, and the
texts that denote them.  A text may be surrounded by blanks, may use the digits of any script and
may set single underscores between digits.
-/

namespace Formula

/-! ### Powers -/

/-- A power of two. -/
def twoPow (n : Nat) : Nat := Nat.pow 2 n

/-- A power of ten. -/
def tenPow (n : Nat) : Nat := Nat.pow 10 n

/-! ### Decimals -/

/-- The number `mantissa * 10 ^ exponent`. -/
structure Decimal where
  /-- The digits, as a natural number. -/
  mantissa : Nat
  /-- The power of ten that scales them. -/
  exponent : Int
  deriving DecidableEq, Repr, Inhabited

namespace Decimal

/-- Moves the zeros at the end of the digits into the exponent. -/
def trimZeros (mantissa : Nat) (exponent : Int) : Decimal :=
  if h : mantissa ≠ 0 ∧ mantissa % 10 = 0 then trimZeros (mantissa / 10) (exponent + 1)
  else ⟨mantissa, exponent⟩
termination_by mantissa
decreasing_by omega

/-- The same number in its one form without zeros at the end; zero has exponent zero. -/
def trimmed (d : Decimal) : Decimal :=
  if d.mantissa = 0 then ⟨0, 0⟩ else trimZeros d.mantissa d.exponent

/-- The digits of the mantissa, the most significant first. -/
def digits (d : Decimal) : List Char := Nat.toDigits 10 d.mantissa

/-- The power of ten of the leading digit. -/
def leading (d : Decimal) : Int := d.exponent + d.digits.length - 1

end Decimal

/-! ### Numerals -/

/-- A number as a text denotes it. -/
inductive Numeral
  | finite (negative : Bool) (magnitude : Decimal)
  | infinite (negative : Bool)
  | undefined
  deriving DecidableEq, Repr, Inhabited

namespace Numeral

/-- The numeral of an integer. -/
def ofInt (n : Int) : Numeral := finite (n < 0) (Decimal.mk n.natAbs 0).trimmed

/-! ### Reading -/

/-- The number that a list of ASCII digits denotes. -/
def ofDigits (cs : List Char) : Nat :=
  cs.foldl (fun n c => 10 * n + (c.toNat - '0'.toNat)) 0

/-- Drops underscores between two digits; any other underscore makes the text unreadable. -/
def joinDigits? (previous : Char) : List Char → Option (List Char)
  | [] => some []
  | '_' :: c :: cs =>
    if previous.isDigit && c.isDigit then (c :: ·) <$> joinDigits? c cs else none
  | c :: cs => if c == '_' then none else (c :: ·) <$> joinDigits? c cs

/-- Splits off a sign and says whether it is a minus. -/
def splitSign : List Char → Bool × List Char
  | '-' :: cs => (true, cs)
  | '+' :: cs => (false, cs)
  | cs => (false, cs)

/-- Splits off the run of digits at the front. -/
def splitDigits (cs : List Char) : List Char × List Char :=
  (cs.takeWhile Char.isDigit, cs.dropWhile Char.isDigit)

/-- The exponent after a mantissa: nothing, or the letter, an optional sign and digits. -/
def exponent? : List Char → Option Int
  | [] => some 0
  | c :: cs =>
    if c == 'e' || c == 'E' then
      let (negative, rest) := splitSign cs
      let (digits, rest) := splitDigits rest
      if digits.isEmpty || !rest.isEmpty then none
      else some (if negative then -(ofDigits digits : Int) else ofDigits digits)
    else none

/-- An unsigned decimal: digits with at most one point among or around them, then an exponent. -/
def decimal? (cs : List Char) : Option Decimal :=
  let (whole, rest) := splitDigits cs
  let (fraction, rest) := match rest with
    | '.' :: rest => splitDigits rest
    | rest => ([], rest)
  if whole.isEmpty && fraction.isEmpty then none
  else (exponent? rest).map fun e =>
    (Decimal.mk (ofDigits (whole ++ fraction)) (e - fraction.length)).trimmed

/-- The numeral without its sign: a word for infinity or the undefined number, or a decimal. -/
def unsigned? (negative : Bool) (cs : List Char) : Option Numeral :=
  let word := String.ofList (cs.map Char.toLower)
  if word == "inf" || word == "infinity" then some (infinite negative)
  else if word == "nan" then some undefined
  else (decimal? cs).map (finite negative)

/-- The numeral that a text denotes, if it denotes one. -/
def ofString? (text : String) : Option Numeral := do
  let cs ← joinDigits? ' ' ((Text.trimBlanks text.toList).map Text.toAsciiDigit)
  let (negative, cs) := splitSign cs
  unsigned? negative cs

end Numeral

end Formula
