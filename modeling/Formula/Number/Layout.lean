import Formula.Number.Numeral

/-!
The texts of numerals.  A layout says which powers of ten are written with the point in its place
and how wide an exponent is at least; a whole number with a point keeps one zero after it.
Two layouts are in use: the plain one of answers and of constants in a formula, and the scientific
one of literals in generated code.
-/

namespace Formula

/-- How a decimal is laid out. -/
structure Layout where
  /-- The least power of ten of a leading digit that needs no exponent. -/
  lowest : Int
  /-- The least power of ten above those that needs one again. -/
  limit : Int
  /-- The least number of digits in an exponent. -/
  exponentWidth : Nat
  deriving DecidableEq, Repr

namespace Layout

/-- Numbers from `10 ^ -4` to below `10 ^ 16` have no exponent; an exponent has two digits. -/
def plain : Layout := ⟨-4, 16, 2⟩

/-- Every number has an exponent, of as few digits as it needs. -/
def scientific : Layout := ⟨0, 0, 1⟩

/-- The digits with the point in its place; a whole number keeps one zero after the point. -/
def positional (digits : List Char) (leading : Int) : List Char :=
  if leading < 0 then
    '0' :: '.' :: List.replicate (-leading - 1).toNat '0' ++ digits
  else
    let whole := leading.toNat + 1
    let fraction := digits.drop whole
    digits.take whole ++ List.replicate (whole - digits.length) '0' ++
      '.' :: (if fraction.isEmpty then ['0'] else fraction)

/-- An exponent with its sign, filled with zeros from the left. -/
def exponentText (width : Nat) (exponent : Int) : List Char :=
  let digits := Nat.toDigits 10 exponent.natAbs
  (if exponent < 0 then '-' else '+') :: List.replicate (width - digits.length) '0' ++ digits

/-- One digit, a point and the other digits if there are any, and the exponent. -/
def exponential (width : Nat) (digits : List Char) (leading : Int) : List Char :=
  let mantissa := match digits with
    | first :: second :: others => first :: '.' :: second :: others
    | digits => digits
  mantissa ++ 'e' :: exponentText width leading

/-- The text of a decimal without zeros at its end. -/
def ofDecimal (layout : Layout) (d : Decimal) : List Char :=
  if layout.lowest ≤ d.leading ∧ d.leading < layout.limit then positional d.digits d.leading
  else exponential layout.exponentWidth d.digits d.leading

/-- The text of a numeral: a minus if it is negative, also for zero, and a word where no digits
can stand. -/
def text (layout : Layout) : Numeral → String
  | .finite negative d => String.ofList ((if negative then ['-'] else []) ++ layout.ofDecimal d)
  | .infinite negative => if negative then "-inf" else "inf"
  | .undefined => "nan"

end Layout

namespace Numeral

/-- The text of a number on its own, with the fewest digits. -/
def plainText (n : Numeral) : String := Layout.plain.text n

/-- The text of a number on its own, a whole number without the point and the zero after it. -/
def bareText (n : Numeral) : String :=
  match n.plainText.toList.reverse with
  | '0' :: '.' :: whole => String.ofList whole.reverse
  | _ => n.plainText

/-- The text of a literal in generated code. -/
def literalText (n : Numeral) : String := Layout.scientific.text n

/-- Whole numbers below this power of ten are written without a point in a formula. -/
def wholeLimit : Int := 15

/-- The text of a magnitude in a formula. -/
def magnitudeText (d : Decimal) : String :=
  if 0 ≤ d.exponent ∧ d.leading < wholeLimit then
    toString (d.mantissa * tenPow d.exponent.toNat)
  else Layout.plain.text (finite false d)

/-- The text of a constant in a formula.  A formula has no negative literals, so a negative
constant is put into parentheses with its minus in front; an infinity is a literal that is too
large, and the undefined number is a quotient of zeros.  The sign of a zero is not written. -/
def constantText : Numeral → String
  | undefined => "(0/0)"
  | infinite false => "1e999"
  | infinite true => "(0-1e999)"
  | finite negative d =>
    if negative && d.mantissa ≠ 0 then "(-" ++ magnitudeText d ++ ")" else magnitudeText d

end Numeral

end Formula
