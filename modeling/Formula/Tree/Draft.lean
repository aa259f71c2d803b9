import Formula.Tree.Constructors
import Formula.Tree.Derivative
import Formula.Tree.Evaluate
import Formula.Tree.OfPostfix

/-!
Drafts: trees whose symbols are any texts and whose leaves may be foreign.  A draft is checked into
a tree; every operation on a draft does what it does on the tree if there is one, and otherwise
fails at the first symbol, in the order in which it visits them, that it cannot use.
-/

namespace Formula

/-- A leaf that is a constant, or a text that is no node at all. -/
inductive Leaf (κ : Type)
  | number (c : κ)
  | foreign (text : String)
  deriving DecidableEq, Repr

/-- A tree that has not been checked. -/
abbrev Draft (κ : Type) := Term String String (Leaf κ)

namespace Draft

variable {κ : Type}

/-! ### Making and checking -/

/-- The draft of a tree. -/
def ofTree : Tree κ → Draft κ
  | .constant c => .constant (.number c)
  | .var x => .var x
  | .binary op left right => .binary op.symbol (ofTree left) (ofTree right)
  | .unary f arg => .unary f.symbol (ofTree arg)

/-- A new operator node over drafts. -/
def makeBinary (symbol : String) (left right : Draft κ) : Except Fault (Draft κ) := do
  let op ← operatorOf symbol
  return .binary op.symbol left right

/-- A new function node over a draft. -/
def makeUnary (symbol : String) (arg : Draft κ) : Except Fault (Draft κ) := do
  let f ← funcOf symbol
  return .unary f.symbol arg

/-- The form of the root. -/
def root : Draft κ → RootForm
  | .constant (.number _) => .constant
  | .constant (.foreign _) => .foreign
  | .var _ => .var
  | .binary .. => .binary
  | .unary .. => .unary

/-- The tree of a draft, made anew from the leaves up. -/
def check : Draft κ → Except Fault (Tree κ)
  | .constant (.number c) => .ok (.constant c)
  | .constant (.foreign _) => .error (.malformedTree .foreign)
  | .var x => .ok (.var x)
  | .binary symbol left right => do
    let left ← check left
    let right ← check right
    let op ← operatorOf symbol
    return .binary op left right
  | .unary symbol arg => do
    let arg ← check arg
    let f ← funcOf symbol
    return .unary f arg

/-- Whether every symbol of a draft is in the vocabulary, as its place demands, and no leaf is
foreign. -/
def isValid : Draft κ → Bool
  | .constant (.number _) => true
  | .constant (.foreign _) => false
  | .var _ => true
  | .binary symbol left right => isOperator symbol && (isValid left && isValid right)
  | .unary symbol arg => isFunctionName symbol && isValid arg

/-- The tree of a draft that is expected to be well formed as a whole. -/
def validate (d : Draft κ) : Except Fault (Tree κ) :=
  d.check.mapError fun _ => .malformedTree d.root

@[simp] theorem check_ofTree (t : Tree κ) : check (ofTree t) = .ok t := by
  induction t with
  | constant c => rfl
  | var x => rfl
  | binary op left right ihl ihr =>
    simp only [ofTree, check, ihl, ihr, operatorOf_symbol]
    rfl
  | unary f arg ih =>
    simp only [ofTree, check, ih, funcOf_symbol]
    rfl

/-- The drafts that are valid are the trees. -/
theorem isValid_iff {d : Draft κ} : d.isValid = true ↔ ∃ t, d = ofTree t := by
  constructor
  · intro h
    induction d with
    | constant leaf =>
      cases leaf with
      | number c => exact ⟨.constant c, rfl⟩
      | foreign text => cases h
    | var x => exact ⟨.var x, rfl⟩
    | binary symbol left right ihl ihr =>
      obtain ⟨hsymbol, hboth⟩ := Bool.and_eq_true_iff.1 h
      obtain ⟨hleft, hright⟩ := Bool.and_eq_true_iff.1 hboth
      obtain ⟨op, hop⟩ := Option.isSome_iff_exists.1 hsymbol
      obtain ⟨l, rfl⟩ := ihl hleft
      obtain ⟨r, rfl⟩ := ihr hright
      exact ⟨.binary op l r, by rw [ofTree, Operator.ofSymbol?_eq_some.1 hop]⟩
    | unary symbol arg ih =>
      obtain ⟨hsymbol, harg⟩ := Bool.and_eq_true_iff.1 h
      obtain ⟨f, hf⟩ := Option.isSome_iff_exists.1 hsymbol
      obtain ⟨u, rfl⟩ := ih harg
      exact ⟨.unary f u, by rw [ofTree, Func.ofSymbol?_eq_some.1 hf]⟩
  · rintro ⟨t, rfl⟩
    induction t with
    | constant c => rfl
    | var x => rfl
    | binary op left right ihl ihr =>
      simp only [ofTree, isValid, isOperator, Operator.ofSymbol?_symbol, ihl, ihr]
      rfl
    | unary f arg ih =>
      simp only [ofTree, isValid, isFunctionName, Func.ofSymbol?_symbol, ih]
      rfl

/-- Replaces the constants of a draft. -/
def mapNumbers {κ' : Type} (f : κ → κ') (d : Draft κ) : Draft κ' :=
  d.mapConstants fun
    | .number c => .number (f c)
    | .foreign text => .foreign text

/-! ### Text -/

/-- The rank of the symbol at the root, if it is an operator node. -/
def rootRank : Draft κ → Except Fault (Option Nat)
  | .binary symbol _ _ => some <$> rankOf symbol
  | _ => .ok none

theorem rootRank_ofTree (t : Tree κ) : rootRank (ofTree t) = .ok t.rank? := by
  cases t with
  | binary op left right =>
    simp only [ofTree, rootRank, rankOf_symbol]
    rfl
  | constant c => rfl
  | var x => rfl
  | unary f arg => rfl

section Text

variable {K : Type} [Literal K]

/-- The formula of a draft: symbols of operator nodes need a rank, names of functions do not. -/
def toInfix : Draft K → Except Fault String
  | .constant (.number c) => .ok (Literal.toNumeral c).constantText
  | .constant (.foreign _) => .error (.malformedTree .foreign)
  | .var x => .ok x
  | .binary symbol left right => do
    let rank ← rankOf symbol
    let leftText ← toInfix left
    let rightText ← toInfix right
    let leftRank ← rootRank left
    let rightRank ← rootRank right
    return parenthesize (leftRank.any (· < rank)) leftText ++ symbol ++
      parenthesize (rightRank.any (· ≤ rank)) rightText
  | .unary symbol arg => do
    let argText ← toInfix arg
    return symbol ++ "(" ++ argText ++ ")"

theorem toInfix_ofTree (t : Tree K) : toInfix (ofTree t) = .ok t.toInfix := by
  induction t with
  | constant c => rfl
  | var x => rfl
  | binary op left right ihl ihr =>
    simp only [ofTree, toInfix, rankOf_symbol, ihl, ihr, rootRank_ofTree]
    rfl
  | unary f arg ih =>
    simp only [ofTree, toInfix, ih]
    rfl

/-- The description of a draft: the form of its root and its formula. -/
def description (d : Draft K) : Except Fault String := do
  let text ← toInfix d
  return d.root.name ++ "(" ++ Text.quoted text ++ ")"

/-- A draft as nested constructor calls; an unknown operator is written like a power. -/
def toConstructors [Kernel K] : Draft K → Except Fault String
  | .constant (.number c) => .ok (constantCall c)
  | .constant (.foreign _) => .error (.malformedTree .foreign)
  | .var x => .ok (variableCall x)
  | .binary symbol left right => do
    let left ← toConstructors left
    let right ← toConstructors right
    return ((Operator.ofSymbol? symbol).getD .power).constructorCall left right
  | .unary symbol arg => do
    let f ← lookUp Func.ofSymbol? symbol
    let arg ← toConstructors arg
    return f.constructorCall arg

theorem toConstructors_ofTree [Kernel K] (t : Tree K) :
    toConstructors (ofTree t) = .ok t.toConstructors := by
  induction t with
  | constant c => rfl
  | var x => rfl
  | binary op left right ihl ihr =>
    simp only [ofTree, toConstructors, ihl, ihr, Operator.ofSymbol?_symbol]
    rfl
  | unary f arg ih =>
    simp only [ofTree, toConstructors, ih, lookUp_func]
    rfl

end Text

/-! ### Values -/

/-- The value of a draft.  Bound quantities stay as they are until an operation needs them. -/
def evaluate {K : Type} [Kernel K] [Literal K] (bindings : Bindings K) :
    Draft K → Except Fault (Quantity K)
  | .constant (.number c) => .ok (.value (.real c))
  | .constant (.foreign _) => .error (.malformedTree .foreign)
  | .var x =>
    match bindings.lookup x with
    | some q => .ok q
    | none => .error (.unbound x)
  | .binary symbol left right => do
    let left ← evaluate bindings left
    let right ← evaluate bindings right
    let op ← lookUp Operator.ofSymbol? symbol
    Quantity.lift₂ op.apply left right
  | .unary symbol arg => do
    let arg ← evaluate bindings arg
    let f ← lookUp Func.ofSymbol? symbol
    Quantity.lift₁ f.apply arg

theorem evaluate_ofTree {K : Type} [Kernel K] [Literal K] (env : Environment K) (t : Tree K) :
    evaluate env.toBindings (ofTree t) = Quantity.value <$> t.evaluate env := by
  induction t with
  | constant c => rfl
  | var x =>
    simp only [ofTree, evaluate, Term.evaluate, Environment.lookup_toBindings, valueOf]
    cases env.lookup x <;> rfl
  | binary op left right ihl ihr =>
    simp only [ofTree, evaluate, Term.evaluate, ihl, ihr, lookUp_operator]
    cases left.evaluate env with
    | error f => rfl
    | ok z => cases right.evaluate env <;> rfl
  | unary f arg ih =>
    simp only [ofTree, evaluate, Term.evaluate, ih, lookUp_func]
    cases arg.evaluate env <;> rfl

/-! ### Simplification -/

section Simplification

variable [Constant κ]

/-- Equality of drafts. -/
def equal (d e : Draft κ) : Bool :=
  Term.equal (fun
    | .number c, .number c' => Constant.same c c'
    | .foreign s, .foreign s' => s == s'
    | _, _ => false) d e

/-- Whether a constant of the draft equals a given one as a number. -/
def containsConstant (c : κ) (d : Draft κ) : Bool :=
  d.anyConstant fun
    | .number c' => Constant.eq c' c
    | .foreign _ => false

/-- One simplifying pass over a draft.  A symbol outside the vocabulary is looked up where its
operands are constants, and otherwise refused for the node that is made anew. -/
def reduce : Draft κ → Except Fault (Tree κ)
  | .constant (.number c) => .ok (.constant c)
  | .constant (.foreign _) => .error (.malformedTree .foreign)
  | .var x => .ok (.var x)
  | .binary symbol left right => do
    let left ← reduce left
    let right ← reduce right
    match left, right with
    | .constant _, .constant _ =>
      let op ← lookUp Operator.ofSymbol? symbol
      return Term.reduceBinary op left right
    | _, _ =>
      let op ← operatorOf symbol
      return Term.reduceBinary op left right
  | .unary symbol arg => do
    let arg ← reduce arg
    match arg with
    | .constant _ =>
      let f ← lookUp Func.ofSymbol? symbol
      return Term.reduceUnary f arg
    | _ =>
      let f ← funcOf symbol
      return Term.reduceUnary f arg

/-- The tree of a draft; one that is no tree fails as it does in a simplifying pass. -/
def checkByReducing (d : Draft κ) : Except Fault (Tree κ) := do
  let _ ← d.reduce
  d.check

theorem reduce_ofTree (t : Tree κ) : reduce (ofTree t) = .ok t.reduce := by
  induction t with
  | constant c => rfl
  | var x => rfl
  | binary op left right ihl ihr =>
    simp only [ofTree, reduce, ihl, ihr, lookUp_operator, operatorOf_symbol, Term.reduce]
    cases left.reduce <;> cases right.reduce <;> rfl
  | unary f arg ih =>
    simp only [ofTree, reduce, ih, lookUp_func, funcOf_symbol, Term.reduce]
    cases arg.reduce <;> rfl

theorem checkByReducing_ofTree (t : Tree κ) : checkByReducing (ofTree t) = .ok t := by
  simp only [checkByReducing, reduce_ofTree, check_ofTree]
  rfl

end Simplification

end Draft

end Formula
