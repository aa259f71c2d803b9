import Formula.Number.Layout
import Formula.Postfix.Evaluate
import Formula.Template.Fill

/-!
Postfix sequences as source text of nested calls.  A dialect says how literals, operators and
functions are spelled: one of shaders, whose functions work on complex numbers, and one of plain
calls, named after the operations of values.
-/

namespace Formula

/-- How the parts of a formula are spelled in generated source. -/
structure Dialect where
  /-- What a literal looks like; the argument is the text of the number. -/
  literal : Template
  /-- The names of the operators. -/
  operators : List (String × String)
  /-- What the name of a function looks like; the argument is its name in formulas. -/
  function : Template
  deriving DecidableEq, Repr

namespace Dialect

/-- Calls of a shader library: literals are made complex and most names end in a capital C. -/
def glsl : Dialect where
  literal := .ofString "r2C(\x7b\x7d)"
  operators := [("+", "add"), ("-", "sub"), ("*", "mul"), ("/", "div"), ("^", "powC")]
  function := .ofString "\x7b\x7dC"

/-- Calls of the operations of values by their own names. -/
def plain : Dialect where
  literal := .ofString "\x7b\x7d"
  operators := [("+", "add"), ("-", "sub"), ("*", "mul"), ("/", "div"), ("^", "pow")]
  function := .ofString "\x7b\x7d"

/-- The call of a function with its arguments. -/
def call (function : String) (arguments : List String) : String :=
  function ++ "(" ++ ", ".intercalate arguments ++ ")"

variable (K : Type) [Literal K]

/-- The text of a literal: the number is read as a scalar and written with the fewest digits. -/
def literalOf (text : String) : Except Fault String := do
  let x : K ← readScalar text
  return (Literal.toNumeral x).literalText

/-- The machine that writes source text in a dialect. -/
def writer (dialect : Dialect) : Machine String where
  number text := do
    let digits ← literalOf K text
    dialect.literal.fill digits
  name := .ok
  operator symbol left right := do
    let function ← lookUp (fun s => dialect.operators.lookup s) symbol
    return call function [left, right]
  function symbol arg := do
    let function ← dialect.function.fill symbol
    return call function [arg]
  noArgument := .missingArgument
  leftover := .leftoverValues

/-- The source text of a postfix sequence in a dialect. -/
def render (dialect : Dialect) (sequence : List Token) : Except Fault String :=
  (dialect.writer K).replay sequence

end Dialect

end Formula
