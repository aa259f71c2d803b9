import Formula.Text.Quoted

/-!
What can be wrong with a template: with its braces, with the path of a slot, with the conversion of
a slot or with the description of its field.
-/

namespace Formula.Template

/-- What is wrong with a template. -/
inductive Flaw
  /-- A brace without its partner. -/
  | loneBrace (brace : Char)
  /-- The path of a slot does not end. -/
  | openPath
  /-- An opening brace in the path of a slot. -/
  | braceInPath
  /-- The letter of a conversion is missing. -/
  | noConversion
  /-- More than one letter of a conversion. -/
  | longConversion
  /-- The description of a field does not end. -/
  | openSpec
  /-- Slots without an index follow slots with one. -/
  | indexDropped
  /-- Slots with an index follow slots without one. -/
  | indexAdded
  /-- A number beyond the largest one. -/
  | hugeNumber
  /-- A step of a path without a name or an index. -/
  | emptyStep
  /-- An index in a path is not closed. -/
  | openIndex
  /-- An index in a path is followed by something other than a step. -/
  | strayAfterIndex
  /-- A letter that names no conversion. -/
  | unknownConversion (c : Char)
  /-- Slots in the descriptions of fields are nested too deeply. -/
  | tooDeep
  /-- Digits are to be grouped in two ways. -/
  | bothSeparators
  /-- A point without a limit after it. -/
  | missingLimit
  /-- A description with characters that have no place in it. -/
  | badSpec (spec : List Char)
  /-- Digits are to be grouped in a kind of field that has none. -/
  | strayGrouping (separator kind : Char)
  /-- A kind of field that texts do not have. -/
  | unknownKind (kind : Char)
  /-- A sign in a field of a text. -/
  | strayPlus
  /-- A blank for a sign in a field of a text. -/
  | straySpace
  /-- A rule for the sign of zero in a field of a text. -/
  | strayZeroRule
  /-- The alternate form of a number in a field of a text. -/
  | strayAlternate
  /-- An alignment between sign and digits in a field of a text. -/
  | strayAfterSign
  deriving DecidableEq, Repr

/-- A character by its code point, in as few hexadecimal digits as it needs. -/
def codeText (c : Char) : String := String.ofList ('\\' :: 'x' :: Text.hexDigits 1 c.toNat)

/-- A character itself if it is a visible one of ASCII, which ends at the given code point. -/
def shownBelow (limit : Nat) (c : Char) : String :=
  if 32 < c.toNat ∧ c.toNat < limit then c.toString else codeText c

/-- The wording of a flaw. -/
def Flaw.message : Flaw → String
  | loneBrace brace => "Single '" ++ brace.toString ++ "' encountered in format string"
  | openPath => "expected '\x7d' before end of string"
  | braceInPath => "unexpected '\x7b' in field name"
  | noConversion => "end of string while looking for conversion specifier"
  | longConversion => "expected ':' after conversion specifier"
  | openSpec => "unmatched '\x7b' in format spec"
  | indexDropped => "cannot switch from manual field specification to automatic field numbering"
  | indexAdded => "cannot switch from automatic field numbering to manual field specification"
  | hugeNumber => "Too many decimal digits in format string"
  | emptyStep => "Empty attribute in format string"
  | openIndex => "Missing ']' in format string"
  | strayAfterIndex => "Only '.' or '[' may follow ']' in format field specifier"
  | unknownConversion c => "Unknown conversion specifier " ++ shownBelow 127 c
  | tooDeep => "Max string recursion exceeded"
  | bothSeparators => "Cannot specify both ',' and '_'."
  | missingLimit => "Format specifier missing precision"
  | badSpec spec => "Invalid format specifier '" ++ String.ofList spec ++ "' for object of type 'str'"
  | strayGrouping separator kind =>
    "Cannot specify '" ++ separator.toString ++ "' with '" ++ shownBelow 128 kind ++ "'."
  | unknownKind kind =>
    "Unknown format code '" ++ shownBelow 128 kind ++ "' for object of type 'str'"
  | strayPlus => "Sign not allowed in string format specifier"
  | straySpace => "Space not allowed in string format specifier"
  | strayZeroRule => "Negative zero coercion (z) not allowed in string format specifier"
  | strayAlternate => "Alternate form (#) not allowed in string format specifier"
  | strayAfterSign => "'=' alignment not allowed in string format specifier"

end Formula.Template
