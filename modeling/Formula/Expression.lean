import Formula.Postfix.Dialect
import Formula.Tree.Draft
import Formula.Tree.OfPostfix
import Formula.Tree.Traversal

/-!
Expressions: trees that remember the postfix sequence they were read from, as long as they are that
tree.  Where there is a sequence it answers for the tree; the two agree.
-/

namespace Formula

/-- A tree with the postfix sequence it was read from, if it was. -/
structure Expression (κ : Type) where
  tree : Tree κ
  sequence? : Option (List Token)
  deriving Repr

namespace Expression

/-! ### Making expressions -/

/-- The expression of a formula. -/
def ofString {K : Type} [Literal K] (source : String) : Except Fault (Expression K) := do
  let sequence ← parse source
  let tree ← Term.ofPostfix sequence
  return ⟨tree, some sequence⟩

/-- The expression of a draft, which has to be a tree. -/
def ofDraft {κ : Type} (d : Draft κ) (sequence? : Option (List Token)) :
    Except Fault (Expression κ) := do
  let tree ← d.validate
  return ⟨tree, sequence?⟩

section Simplification

variable {κ : Type} [Constant κ] (e : Expression κ)

/-- Simplifies the tree. -/
def simplify (passes : Int) : Expression κ := ⟨e.tree.simplify passes, none⟩

/-- Differentiates the tree. -/
def differentiate (x : String) (passes : Int) : Except (Gap κ) (Expression κ) := do
  let tree ← e.tree.differentiate x passes
  return ⟨tree, none⟩

/-- Expressions are equal when their trees are. -/
instance : BEq (Expression κ) := ⟨fun e e' => e.tree == e'.tree⟩

end Simplification

/-- Replaces the constants of the tree. -/
def mapConstants {κ κ' : Type} (f : κ → κ') (e : Expression κ) : Expression κ' :=
  ⟨e.tree.mapConstants f, e.sequence?⟩

/-! ### Asking expressions -/

section Text

variable {κ : Type} (e : Expression κ)

/-- The variables of an expression. -/
def freeVariables : List String :=
  match e.sequence? with
  | some sequence => Formula.freeVariables sequence
  | none => e.tree.variableNames

variable [Literal κ]

/-- The formula of an expression. -/
def toInfix : String := e.tree.toInfix

/-- The source text of an expression in a dialect.  An expression without a postfix sequence is
written as a formula and read again. -/
def render (dialect : Dialect) : Except Fault String := do
  let sequence ← match e.sequence? with
    | some sequence => pure sequence
    | none => parse e.toInfix
  dialect.render κ sequence

/-- The description of an expression. -/
def description : String := "Expression(" ++ Text.quoted e.toInfix ++ ")"

end Text

/-- The value of an expression. -/
def evaluate {K : Type} [Kernel K] [Literal K] (e : Expression K) (bindings : Bindings K) :
    Except Fault (Numeric K) :=
  match e.sequence? with
  | some sequence => Formula.evaluate sequence bindings
  | none => do
    let env ← bindings.toEnvironment
    e.tree.evaluate env

end Expression

end Formula
