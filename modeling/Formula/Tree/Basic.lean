import Formula.Position
import Formula.Vocabulary

/-!
Trees of operators and functions.  A `Term` leaves open what its operators, functions and constants
are; a `Tree` is a term over the vocabulary, so that every tree is well formed.
-/

namespace Formula

/-- Symbols that have a spelling. -/
class Symbol (σ : Type) where
  text : σ → String

instance : Symbol Operator := ⟨Operator.symbol⟩

instance : Symbol Func := ⟨Func.symbol⟩

instance : Symbol String := ⟨id⟩

/-- A tree of operators from `ω` and functions from `φ` over constants from `κ` and variables. -/
inductive Term (ω φ κ : Type)
  | constant (c : κ)
  | var (name : String)
  | binary (op : ω) (left right : Term ω φ κ)
  | unary (f : φ) (arg : Term ω φ κ)
  deriving DecidableEq, Repr

/-- A tree over the vocabulary. -/
abbrev Tree (κ : Type) := Term Operator Func κ

namespace Term

variable {ω φ κ : Type}

instance [Inhabited κ] : Inhabited (Term ω φ κ) := ⟨constant default⟩

/-! ### Measures -/

/-- The number of nodes. -/
def size : Term ω φ κ → Nat
  | constant _ => 1
  | var _ => 1
  | binary _ left right => 1 + (left.size + right.size)
  | unary _ arg => 1 + arg.size

/-- The number of levels. -/
def depth : Term ω φ κ → Nat
  | constant _ => 1
  | var _ => 1
  | binary _ left right => 1 + max left.depth right.depth
  | unary _ arg => 1 + arg.depth

/-- The operands of the root, from the left. -/
def children : Term ω φ κ → List (Term ω φ κ)
  | constant _ => []
  | var _ => []
  | binary _ left right => [left, right]
  | unary _ arg => [arg]

/-- The operand of the root at a position. -/
def child? (t : Term ω φ κ) (position : Int) : Option (Term ω φ κ) := itemAt? t.children position

theorem size_pos (t : Term ω φ κ) : 0 < t.size := by
  cases t <;> simp only [size] <;> omega

theorem depth_pos (t : Term ω φ κ) : 0 < t.depth := by
  cases t <;> simp only [depth] <;> omega

theorem depth_lt_of_mem_children {t u : Term ω φ κ} (h : u ∈ t.children) : u.depth < t.depth := by
  cases t with
  | constant c => cases h
  | var x => cases h
  | binary op left right =>
    simp only [children, List.mem_cons, List.not_mem_nil, or_false] at h
    simp only [depth]
    rcases h with rfl | rfl <;> omega
  | unary f arg =>
    obtain rfl := List.mem_singleton.1 h
    simp only [depth]
    omega

/-- The number of nodes of several trees. -/
def totalSize : List (Term ω φ κ) → Nat
  | [] => 0
  | t :: ts => t.size + totalSize ts

theorem totalSize_append (s t : List (Term ω φ κ)) :
    totalSize (s ++ t) = totalSize s + totalSize t := by
  induction s with
  | nil => simp only [List.nil_append, totalSize, Nat.zero_add]
  | cons a s ih => simp only [List.cons_append, totalSize, ih, Nat.add_assoc]

theorem size_eq_totalSize_children (t : Term ω φ κ) : t.size = 1 + totalSize t.children := by
  cases t <;> simp only [size, children, totalSize] <;> omega

/-! ### Equality -/

/-- Equality of trees when constants are compared by a test. -/
def equal [BEq ω] [BEq φ] (same : κ → κ → Bool) : Term ω φ κ → Term ω φ κ → Bool
  | constant c, constant d => same c d
  | var x, var y => x == y
  | binary op left right, binary op' left' right' =>
    op == op' && left.equal same left' && right.equal same right'
  | unary f arg, unary f' arg' => f == f' && arg.equal same arg'
  | _, _ => false

theorem equal_refl [BEq ω] [BEq φ] [ReflBEq ω] [ReflBEq φ] {same : κ → κ → Bool}
    (h : ∀ c, same c c) (t : Term ω φ κ) : t.equal same t := by
  induction t with
  | constant c => exact h c
  | var x => simp [equal]
  | binary op left right ihl ihr => simp [equal, ihl, ihr]
  | unary f arg ih => simp [equal, ih]

/-! ### Symbols and constants of a tree -/

/-- Whether a node is spelled by a text: as a variable, an operator or a function. -/
def contains [Symbol ω] [Symbol φ] (text : String) : Term ω φ κ → Bool
  | constant _ => false
  | var x => x == text
  | binary op left right => Symbol.text op == text || left.contains text || right.contains text
  | unary f arg => Symbol.text f == text || arg.contains text

/-- Whether a constant passes a test. -/
def anyConstant (test : κ → Bool) : Term ω φ κ → Bool
  | constant c => test c
  | var _ => false
  | binary _ left right => left.anyConstant test || right.anyConstant test
  | unary _ arg => arg.anyConstant test

/-- Replaces every constant. -/
def mapConstants {κ' : Type} (f : κ → κ') : Term ω φ κ → Term ω φ κ'
  | constant c => constant (f c)
  | var x => var x
  | binary op left right => binary op (left.mapConstants f) (right.mapConstants f)
  | unary g arg => unary g (arg.mapConstants f)

end Term

end Formula
