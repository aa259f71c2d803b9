import Formula.Number.Numeral
import Formula.Template.Field
import Formula.Template.Flaw

/-!
Descriptions of fields, as they stand in a slot of a template.  In this order a description gives a
filling and an alignment, options of numbers, a width, a grouping of digits, a limit and the kind of
field, and each may be left out.  A field of a text has no options of numbers.
-/

namespace Formula.Template

/-! ### Numbers -/

/-- The largest number in a template. -/
def largestNumber : Nat := twoPow 63 - 1

/-- A number in digits of any script. -/
def readNumber (digits : List Char) : Except Flaw Nat :=
  let n := Numeral.ofDigits (digits.map Text.toAsciiDigit)
  if largestNumber < n then .error .hugeNumber else .ok n

/-- Whether a character is a digit of some script. -/
def isDigit (c : Char) : Bool := (Text.digitValue? c).isSome

/-- The number at the front, if there is one, and the rest. -/
def splitNumber (cs : List Char) : Except Flaw (Option Nat × List Char) :=
  match cs.takeWhile isDigit with
  | [] => .ok (none, cs)
  | digits => do
    let n ← readNumber digits
    return (some n, cs.dropWhile isDigit)

/-! ### Parts of a description -/

/-- An alignment in a description: one of texts, or one of numbers between sign and digits. -/
inductive Spec.Side
  | text (alignment : Alignment)
  | afterSign
  deriving DecidableEq, Repr

/-- The side that a character stands for. -/
def Spec.Side.ofChar? : Char → Option Side
  | '<' => some (.text .left)
  | '>' => some (.text .right)
  | '^' => some (.text .center)
  | '=' => some .afterSign
  | _ => none

/-- What a description gives. -/
structure Spec where
  fill : Option Char
  side : Option Spec.Side
  /-- The sign of numbers that are not negative: a plus, a minus for none, or a blank. -/
  sign : Option Char
  /-- Zero has no minus. -/
  plainZero : Bool
  /-- Numbers have their alternate form. -/
  alternate : Bool
  width : Option Nat
  /-- What groups the digits of numbers. -/
  separator : Option Char
  limit : Option Nat
  kind : Option Char
  deriving DecidableEq, Repr

namespace Spec

/-- An alignment at the front, with the filling before it if two characters are there. -/
def splitSide (cs : List Char) : Option Char × Option Side × List Char :=
  match cs.tail.head?.bind Side.ofChar? with
  | some side => (cs.head?, some side, cs.drop 2)
  | none =>
    match cs.head?.bind Side.ofChar? with
    | some side => (none, some side, cs.drop 1)
    | none => (none, none, cs)

/-- The character at the front if it passes a test, and the rest. -/
def splitIf (test : Char → Bool) : List Char → Option Char × List Char
  | [] => (none, [])
  | c :: cs => if test c then (some c, cs) else (none, c :: cs)

/-- The grouping at the front: a comma or a low line, but not both. -/
def splitSeparator (cs : List Char) : Except Flaw (Option Char × List Char) :=
  match cs with
  | ',' :: '_' :: _ => .error .bothSeparators
  | '_' :: ',' :: _ => .error .bothSeparators
  | ',' :: cs => .ok (some ',', cs)
  | '_' :: cs => .ok (some '_', cs)
  | cs => .ok (none, cs)

/-- The limit at the front, after a point. -/
def splitLimit : List Char → Except Flaw (Option Nat × List Char)
  | '.' :: cs => do
    match ← splitNumber cs with
    | (none, _) => .error .missingLimit
    | (limit, cs) => return (limit, cs)
  | cs => .ok (none, cs)

/-- Whether the digits of numbers in a kind of field can be grouped: those of decimals can in both
ways, those of the other bases by a low line. -/
def groups (separator kind : Char) : Bool :=
  ['d', 'e', 'f', 'g', 'E', 'F', 'G', '%', '\x00'].contains kind ||
    (separator == '_' && ['b', 'o', 'x', 'X'].contains kind)

/-- The kind of field that texts have. -/
def textKind : Char := 's'

/-- What a description gives.  A zero before the width is a filling, unless there is one. -/
def ofChars (text : List Char) : Except Flaw Spec := do
  let (fill, side, cs) := splitSide text
  let (sign, cs) := splitIf (fun c => c == '+' || c == '-' || c == ' ') cs
  let (zero, cs) := splitIf (· == 'z') cs
  let (alternate, cs) := splitIf (· == '#') cs
  let (fill, cs) := if fill.isSome then (fill, cs) else splitIf (· == '0') cs
  let (width, cs) ← splitNumber cs
  let (separator, cs) ← splitSeparator cs
  let (limit, cs) ← splitLimit cs
  let kind ← match cs with
    | [] => pure none
    | [kind] => pure (some kind)
    | _ => .error (.badSpec text)
  match separator with
  | some s =>
    let kind := kind.getD textKind
    if groups s kind then pure () else .error (.strayGrouping s kind)
  | none => pure ()
  return ⟨fill, side, sign, zero.isSome, alternate.isSome, width, separator, limit, kind⟩

/-- The field of a text that a description gives. -/
def toField (spec : Spec) : Except Flaw Field := do
  let kind := spec.kind.getD textKind
  if kind ≠ textKind then .error (.unknownKind kind)
  else if spec.sign = some ' ' then .error .straySpace
  else if spec.sign.isSome then .error .strayPlus
  else if spec.plainZero then .error .strayZeroRule
  else if spec.alternate then .error .strayAlternate
  else match spec.side with
    | some .afterSign => .error .strayAfterSign
    | some (.text side) => return ⟨spec.fill.getD ' ', side, spec.width.getD 0, spec.limit⟩
    | none => return ⟨spec.fill.getD ' ', .left, spec.width.getD 0, spec.limit⟩

end Spec

end Formula.Template
