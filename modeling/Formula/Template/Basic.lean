import Formula.Template.Flaw

/-!
Templates: texts with slots for one argument.  A slot stands between braces and holds a path, which
leads to what is shown, a conversion after an exclamation mark and the description of a field after
a colon; all three may be left out.  A doubled brace stands for the brace itself.
-/

namespace Formula

namespace Template

/-- What stands between the braces of a slot. -/
structure Slot where
  path : List Char
  conversion : Option Char
  /-- The description of the field, which may hold slots itself. -/
  spec : List Char
  deriving DecidableEq, Repr

/-- A piece of a template. -/
inductive Piece
  /-- A character that stands for itself. -/
  | text (c : Char)
  | slot (s : Slot)
  /-- The place from which on the template cannot be read. -/
  | broken (flaw : Flaw)
  deriving DecidableEq, Repr

/-- Where in a template reading stands; the characters read in a part are kept in reverse. -/
inductive Place
  | outside
  | inPath (read : List Char)
  /-- Inside the brackets of an index in a path, where no character ends the path. -/
  | inIndex (read : List Char)
  | beforeConversion (path : List Char)
  | afterConversion (path : List Char) (conversion : Char)
  /-- In a description, with the number of slots that are open in it. -/
  | inSpec (path : List Char) (conversion : Option Char) (depth : Nat) (read : List Char)
  deriving DecidableEq, Repr

end Template

/-- A text with slots. -/
abbrev Template := List Template.Piece

namespace Template

/-- Cuts a text into pieces. -/
def piecesFrom : Place → List Char → Template
  | .outside, [] => []
  | .outside, '\x7b' :: '\x7b' :: cs => .text '\x7b' :: piecesFrom .outside cs
  | .outside, '\x7d' :: '\x7d' :: cs => .text '\x7d' :: piecesFrom .outside cs
  | .outside, ['\x7b'] => [.broken (.loneBrace '\x7b')]
  | .outside, '\x7b' :: cs => piecesFrom (.inPath []) cs
  | .outside, '\x7d' :: _ => [.broken (.loneBrace '\x7d')]
  | .outside, c :: cs => .text c :: piecesFrom .outside cs
  | .inPath _, [] => [.broken .openPath]
  | .inPath _, '\x7b' :: _ => [.broken .braceInPath]
  | .inPath read, '\x7d' :: cs => .slot ⟨read.reverse, none, []⟩ :: piecesFrom .outside cs
  | .inPath read, '!' :: cs => piecesFrom (.beforeConversion read.reverse) cs
  | .inPath read, ':' :: cs => piecesFrom (.inSpec read.reverse none 0 []) cs
  | .inPath read, '[' :: cs => piecesFrom (.inIndex ('[' :: read)) cs
  | .inPath read, c :: cs => piecesFrom (.inPath (c :: read)) cs
  | .inIndex _, [] => [.broken .openPath]
  | .inIndex read, ']' :: cs => piecesFrom (.inPath (']' :: read)) cs
  | .inIndex read, c :: cs => piecesFrom (.inIndex (c :: read)) cs
  | .beforeConversion _, [] => [.broken .noConversion]
  | .beforeConversion path, c :: cs => piecesFrom (.afterConversion path c) cs
  | .afterConversion _ _, [] => [.broken .openSpec]
  | .afterConversion path c, '\x7d' :: cs => .slot ⟨path, some c, []⟩ :: piecesFrom .outside cs
  | .afterConversion path c, ':' :: cs => piecesFrom (.inSpec path (some c) 0 []) cs
  | .afterConversion _ _, _ :: _ => [.broken .longConversion]
  | .inSpec _ _ _ _, [] => [.broken .openSpec]
  | .inSpec path conversion 0 read, '\x7d' :: cs =>
    .slot ⟨path, conversion, read.reverse⟩ :: piecesFrom .outside cs
  | .inSpec path conversion (depth + 1) read, '\x7d' :: cs =>
    piecesFrom (.inSpec path conversion depth ('\x7d' :: read)) cs
  | .inSpec path conversion depth read, '\x7b' :: cs =>
    piecesFrom (.inSpec path conversion (depth + 1) ('\x7b' :: read)) cs
  | .inSpec path conversion depth read, c :: cs =>
    piecesFrom (.inSpec path conversion depth (c :: read)) cs

/-- The template that a text denotes. -/
def ofString (text : String) : Template := piecesFrom .outside text.toList

end Template

end Formula
