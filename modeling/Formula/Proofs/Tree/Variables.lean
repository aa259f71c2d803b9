import Formula.Proofs.Tree.Derives
import Formula.Tree.Traversal
import Mathlib.Tactic.Common

/-!
The variables that occur in a tree.  Neither simplification nor differentiation brings in new ones
(`occurs_of_simplify`, `Derives.occurs`).
-/

namespace Formula.Term

/-- The variable is one of the nodes. -/
def Occurs {ω φ κ : Type} (x : String) (t : Term ω φ κ) : Prop := var x ∈ t.depthFirst

section Nodes

variable {ω φ κ : Type} {x : String}

@[simp] theorem not_occurs_constant (c : κ) : ¬ Occurs x (constant c : Term ω φ κ) := by
  simp [Occurs, depthFirst]

@[simp] theorem occurs_var {y : String} : Occurs x (var y : Term ω φ κ) ↔ x = y := by
  simp [Occurs, depthFirst]

@[simp] theorem occurs_binary {op : ω} {left right : Term ω φ κ} :
    Occurs x (binary op left right) ↔ Occurs x left ∨ Occurs x right := by
  simp [Occurs, depthFirst]

@[simp] theorem occurs_unary {f : φ} {arg : Term ω φ κ} :
    Occurs x (unary f arg) ↔ Occurs x arg := by
  simp [Occurs, depthFirst]

end Nodes

variable {κ : Type} [Constant κ] {x y : String} {passes : Int} {t r left right arg : Tree κ}

/-! ### Simplification -/

@[simp] theorem not_occurs_number (n : Int) : ¬ Occurs x (number n : Tree κ) :=
  not_occurs_constant _

theorem occurs_of_dropNeutral {op : Operator} (h : Occurs x (dropNeutral op left right)) :
    Occurs x (binary op left right) := by
  rw [occurs_binary]
  -- what is left is an operand, a number or the operation itself
  cases op <;> simp only [dropNeutral] at h <;> split_ifs at h <;> simp_all

theorem occurs_of_reduce (h : Occurs x t.reduce) : Occurs x t := by
  induction t with
  | constant c => exact h
  | var y => exact h
  | binary op left right ihl ihr =>
    rw [reduce, reduceBinary] at h
    split at h
    · exact absurd h (not_occurs_constant _)
    · exact occurs_binary.2 ((occurs_binary.1 (occurs_of_dropNeutral h)).imp ihl ihr)
  | unary f arg ih =>
    rw [reduce, reduceUnary] at h
    split at h
    · exact absurd h (not_occurs_constant _)
    · exact occurs_unary.2 (ih (occurs_unary.1 h))

/-- **Simplification brings in no variables.** -/
theorem occurs_of_simplify (h : Occurs x (t.simplify passes)) : Occurs x t :=
  simplify_induction (P := fun u => Occurs x u → Occurs x t)
    (fun _ hu hx => hu (occurs_of_reduce hx)) passes id h

/-! ### Differentiation -/

theorem occurs_of_rule {f : Func} {rule : Tree κ → Tree κ} (hrule : f.derivative? = some rule)
    (h : Occurs x (rule t)) : Occurs x t := by
  cases f <;> cases hrule <;> simp at h <;> exact h

/-- **A derivative has no other variables than the simplified tree.** -/
theorem Derives.occurs (hr : Derives y passes t r) (h : Occurs x r) :
    Occurs x (t.simplify passes) := by
  induction hr with
  | free _ => exact absurd h (not_occurs_number 0)
  | self _ => exact absurd h (not_occurs_number 1)
  | sum _ ht _ _ _ ihu ihv =>
    have hresult := occurs_of_simplify h
    rw [ht]
    simp only [occurs_binary] at hresult ⊢
    exact hresult.imp (occurs_of_simplify ∘ ihu) (occurs_of_simplify ∘ ihv)
  | product ht _ _ _ ihu ihv =>
    have hu := occurs_of_simplify ∘ ihu
    have hv := occurs_of_simplify ∘ ihv
    have hresult := occurs_of_simplify h
    rw [ht]
    simp only [occurs_binary] at hresult ⊢
    tauto
  | quotient ht _ _ _ ihu ihv =>
    have hu := occurs_of_simplify ∘ ihu
    have hv := occurs_of_simplify ∘ ihv
    have hresult := occurs_of_simplify h
    rw [ht]
    simp only [occurs_binary, not_occurs_number] at hresult ⊢
    tauto
  | power _ ht _ _ ihu =>
    have hu := occurs_of_simplify ∘ ihu
    have hresult := occurs_of_simplify h
    rw [ht]
    simp only [occurs_binary, not_occurs_constant] at hresult ⊢
    tauto
  | chain hrule ht _ _ ihu =>
    have hu := occurs_of_simplify ∘ ihu
    have hresult := occurs_of_simplify h
    rw [ht]
    rw [occurs_binary] at hresult
    exact occurs_unary.2 (hresult.elim (occurs_of_rule hrule) hu)

end Formula.Term
