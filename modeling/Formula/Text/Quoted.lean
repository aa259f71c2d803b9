import Formula.Text.Printable

/-!
Texts quoted in messages.  The quotes are single unless the text holds a single quote and no
double quote; a backslash goes before the quote in use and before a backslash, line feed, carriage
return and tab have short escapes, and any other character that is not printable is written by
its code point in two, four or eight hexadecimal digits.
-/

namespace Formula.Text

/-- The hexadecimal digits of a number, filled with zeros from the left to a given width. -/
def hexDigits (width n : Nat) : List Char :=
  let digits := Nat.toDigits 16 n
  List.replicate (width - digits.length) '0' ++ digits

/-- A character that is not printable, written by its code point. -/
def escapeCode (c : Char) : List Char :=
  if c.toNat ≤ 0xff then '\\' :: 'x' :: hexDigits 2 c.toNat
  else if c.toNat ≤ 0xffff then '\\' :: 'u' :: hexDigits 4 c.toNat
  else '\\' :: 'U' :: hexDigits 8 c.toNat

/-- A character as it stands between two quotes. -/
def escapeIn (quote c : Char) : List Char :=
  if c == quote || c == '\\' then ['\\', c]
  else if c == '\n' then ['\\', 'n']
  else if c == '\r' then ['\\', 'r']
  else if c == '\t' then ['\\', 't']
  else if isPrintable c then [c]
  else escapeCode c

/-- The quote around a text. -/
def quoteFor (cs : List Char) : Char :=
  if cs.contains '\'' && !cs.contains '"' then '"' else '\''

/-- A text between quotes, on one line and without hidden characters. -/
def quotedChars (cs : List Char) : List Char :=
  let quote := quoteFor cs
  quote :: cs.flatMap (escapeIn quote) ++ [quote]

/-- A text between quotes in ASCII: all other characters are written by their code points. -/
def asciiQuotedChars (cs : List Char) : List Char :=
  (quotedChars cs).flatMap fun c => if c.toNat < 128 then [c] else escapeCode c

/-- The text between quotes, on one line and without hidden characters. -/
def quoted (text : String) : String := String.ofList (quotedChars text.toList)

end Formula.Text
