import Formula.Engine
import Formula.Number.Double
import Formula.Token.Start
import Formula.Proofs.Grammar.Phrase
import Formula.Proofs.Postfix.Replay
import Formula.Proofs.Postfix.Shunting
import Formula.Proofs.Grammar.Parsing
import Formula.Proofs.Number.Binary
import Formula.Proofs.Number.Arithmetic
import Formula.Proofs.Tree.Normal
import Formula.Proofs.Number.Laws
import Formula.Proofs.Tree.Value
import Formula.Proofs.Number.Doubles
import Formula.Proofs.Tree.Doubles
import Formula.Proofs.Number.Decimal
import Formula.Proofs.Number.NumberText
import Formula.Proofs.Number.Layout
import Formula.Proofs.Number.Scientific
import Formula.Proofs.Number.Shortest
import Formula.Proofs.Token.Lexing
import Formula.Proofs.Postfix.Origin
import Formula.Proofs.Number.Constants
import Formula.Proofs.Tree.Printing
import Formula.Proofs.Tree.RoundTrip
import Formula.Proofs.Tree.Simulation
import Formula.Proofs.Token.Nesting
import Formula.Proofs.Postfix.Surplus
import Formula.Proofs.Grammar.Acceptance
import Formula.Proofs.Tree.Derives
import Formula.Proofs.Tree.Variables
import Formula.Proofs.Tree.PrintedValue
import Formula.Proofs.Calculus.Exact
import Formula.Proofs.Calculus.Derivative
import Formula.Proofs.Calculus.Formal
import Formula.Proofs.Token.Spelling
import Formula.Proofs.Postfix.Group
import Formula.Proofs.Grammar.Composition
import Formula.Proofs.Number.Reading
import Formula.Proofs.Postfix.Consumers
import Formula.Proofs.Tree.Listing
import Formula.Proofs.Grammar.Usable
import Formula.Proofs.Number.Rational
import Formula.Proofs.Tree.Gaps
import Formula.Proofs.Tree.Traversal
import Formula.Proofs.Tree.Tokens
import Formula.Proofs.Postfix.Calls
import Formula.Proofs.Postfix.Rendering
import Formula.Proofs.Expression.Shortcut
import Formula.Proofs.Number.Rounding
import Formula.Proofs.Tree.Constants
import Formula.Proofs.Tree.Alike
import Formula.Proofs.Tree.Reached
import Formula.Proofs.Tree.Recovery
import Formula.Proofs.Postfix.Namespace
import Formula.Proofs.Token.Completion
import Formula.Proofs.Engine.Warnings
import Formula.Proofs.Log.Handlers
import Formula.Proofs.Tree.Symbolic
import Formula.Proofs.Expression.Closure
import Formula.Proofs.Tree.Reduced
import Formula.Proofs.Postfix.Order
import Formula.Proofs.Grammar.Signs
import Formula.Proofs.Postfix.Shader
import Formula.Proofs.Tree.Levels
import Formula.Proofs.Tree.Descent
import Formula.Proofs.Tree.Congruence
import Formula.Proofs.Expression.Variables
import Formula.Proofs.Tree.Distinct
import Formula.Proofs.Engine.Verbosity
import Formula.Proofs.Complex.Ring
import Formula.Proofs.Number.Power
import Formula.Proofs.Complex.Polar
import Formula.Proofs.Complex.Trigonometry
import Formula.Proofs.Complex.Field
import Formula.Proofs.Token.WellNested
import Formula.Proofs.Postfix.Ascent
import Formula.Proofs.Postfix.Pairing
import Formula.Proofs.Postfix.Names
import Formula.Proofs.Postfix.Scope
