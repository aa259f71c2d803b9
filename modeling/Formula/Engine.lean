import Formula.Expression
import Formula.Log
import Formula.Postfix.Shader

/-!
The engine: the operations of the library under one configuration, with the notes they make.  A
rejected source, an unbound variable and a missing derivative rule are each noted once, where they
are found; results are noted at the higher levels.
-/

namespace Formula

/-! ### Notes of the operations -/

/-- What is noted of a source that cannot be read. -/
def Fault.diagnosis : Fault → String
  | badNumber .. => "Invalid numerical value"
  | unbalanced _ => "Unbalanced parentheses"
  | _ => "Invalid expression"

namespace Logged

/-- Reads a formula and notes what it is read as, or that it is rejected. -/
def parse (source : String) : Logged (List Token) :=
  match Formula.parse source with
  | .ok sequence => do
    note (.debug ("parsed " ++ Text.quoted source ++ " -> " ++ Token.joinTexts sequence))
    return sequence
  | .error f => reject (.diagnostic f.diagnosis source) f

section Numbers

variable {K : Type} [Kernel K] [Literal K]

/-- Evaluates a sequence and notes a variable without a value. -/
def evaluate (sequence : List Token) (bindings : Bindings K) : Logged (Numeric K) :=
  match Formula.evaluate sequence bindings with
  | .error (.unbound x) => reject (.warning ("Unbound variable '" ++ x ++ "'")) (.unbound x)
  | result => ofExcept result

/-- The text of a derivative. -/
def derivativeText (x : String) (t derivative : Tree K) : String :=
  "d/d" ++ x ++ " " ++ t.toInfix ++ " = " ++ derivative.toInfix

/-- Differentiates a tree and notes the result, or why there is none. -/
def differentiate (x : String) (passes : Int) (t : Tree K) : Logged (Tree K) :=
  match t.differentiate x passes with
  | .ok derivative => do
    note (.debug (derivativeText x t derivative))
    return derivative
  | .error gap =>
    let f := gap.toFault
    reject (.warning ("Cannot differentiate " ++ t.toInfix ++ " by " ++ x ++ ": " ++ f.message)) f

end Numbers

end Logged

/-! ### Engines -/

/-- How an engine works. -/
structure Engine where
  /-- The level of the logger in use from here on, or none to leave it. -/
  level? : Option Level
  /-- Whether the logger in use from here on writes to a file. -/
  toFile : Bool
  /-- The bound on simplifying passes. -/
  passes : Int
  /-- The dialect of generated source. -/
  dialect : Dialect
  /-- The names that a shader defines itself. -/
  reserved : List String
  deriving DecidableEq, Repr

namespace Engine

/-- The engine that is asked for nothing in particular. -/
def default : Engine := ⟨none, false, Term.defaultPasses, .glsl, Shader.localNames⟩

/-- An engine needs at least one simplifying pass. -/
def validate (engine : Engine) : Except Fault Engine :=
  if engine.passes < 1 then .error (.tooFewPasses engine.passes) else .ok engine

/-- What making an engine does to the logger in use. -/
def logEvent (engine : Engine) : LogEvent := .engine engine.level? engine.toFile

/-- Reads a formula. -/
def parse (source : String) : Logged (List Token) := do
  let sequence ← Logged.parse source
  Logged.note (.info .moderate ("Parsed " ++ Text.quoted source ++ " into " ++
    toString sequence.length ++ " RPN tokens"))
  return sequence

section Numbers

variable {K : Type} [Kernel K] [Literal K]

/-- Evaluates a sequence. -/
def evaluate (sequence : List Token) (bindings : Bindings K) : Logged (Numeric K) :=
  Logged.evaluate sequence bindings

/-- Reads and evaluates a formula. -/
def compute (source : String) (bindings : Bindings K) : Logged (Numeric K) := do
  let sequence ← parse source
  Logged.evaluate sequence bindings

variable (engine : Engine)

/-- Generates source in the dialect of the engine. -/
def render (K : Type) [Literal K] (sequence : List Token) : Logged String :=
  .ofExcept (engine.dialect.render K sequence)

/-- Reads a formula and generates the source of its shader. -/
def shader (K : Type) [Literal K] (source : String) : Logged Shader := do
  let sequence ← parse source
  .ofExcept (Shader.ofSequence K engine.reserved sequence)

/-- Builds the tree of a sequence. -/
def toTree (sequence : List Token) : Logged (Tree K) := .ofExcept (Term.ofPostfix sequence)

/-- Simplifies a tree. -/
def simplify (t : Tree K) : Tree K := t.simplify engine.passes

/-- Differentiates a tree. -/
def differentiate (x : String) (t : Tree K) : Logged (Tree K) := do
  let derivative ← Logged.differentiate x engine.passes t
  Logged.note (.info .detailed (Logged.derivativeText x t derivative))
  return derivative

/-- Reads a formula as an expression. -/
def expression (source : String) : Logged (Expression K) := do
  let sequence ← Logged.parse source
  let tree ← .ofExcept (Term.ofPostfix sequence)
  return ⟨tree, some sequence⟩

end Numbers

end Engine

end Formula
