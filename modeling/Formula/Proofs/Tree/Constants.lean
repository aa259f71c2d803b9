import Formula.Proofs.Tree.Variables

/-!
The constants of a tree.  Simplification and differentiation write small integers, results of folds
and integers less one; a property that all of these have is one that they keep
(`Constant.Kept`, `AllConstants.simplify`, `Derives.allConstants`).
-/

namespace Formula

/-- A property that the constants have which simplification and differentiation write. -/
structure Constant.Kept {κ : Type} [Constant κ] (P : κ → Prop) : Prop where
  ofInt : ∀ n : Int, n ∈ [-2, -1, 0, 1, 2] → P (Constant.ofInt n)
  pred : ∀ {c : κ}, Constant.isInteger c → P (Constant.pred c)
  foldOperator : ∀ {op : Operator} {c d e : κ}, Constant.foldOperator op c d = some e → P e
  foldFunc : ∀ {f : Func} {c e : κ}, Constant.foldFunc f c = some e → P e

namespace Term

/-- All constants of the tree have a property. -/
def AllConstants {ω φ κ : Type} (P : κ → Prop) (t : Term ω φ κ) : Prop :=
  ∀ c, constant c ∈ t.depthFirst → P c

section Nodes

variable {ω φ κ : Type} {P : κ → Prop}

@[simp] theorem allConstants_constant {c : κ} :
    AllConstants P (constant c : Term ω φ κ) ↔ P c := by
  simp [AllConstants, depthFirst]

@[simp] theorem allConstants_var (x : String) : AllConstants P (var x : Term ω φ κ) := by
  simp [AllConstants, depthFirst]

@[simp] theorem allConstants_binary {op : ω} {left right : Term ω φ κ} :
    AllConstants P (binary op left right) ↔ AllConstants P left ∧ AllConstants P right := by
  simp [AllConstants, depthFirst, or_imp, forall_and]

@[simp] theorem allConstants_unary {f : φ} {arg : Term ω φ κ} :
    AllConstants P (unary f arg) ↔ AllConstants P arg := by
  simp [AllConstants, depthFirst]

end Nodes

variable {κ : Type} [Constant κ] {P : κ → Prop} {x : String} {passes : Int}
  {t r left right arg : Tree κ}

section Kept

variable (hP : Constant.Kept P)

include hP

theorem allConstants_number {n : Int} (hn : n ∈ [-2, -1, 0, 1, 2]) :
    AllConstants P (number n : Tree κ) :=
  allConstants_constant.2 (hP.ofInt n hn)

/-! ### Simplification -/

theorem AllConstants.dropNeutral {op : Operator} (hl : AllConstants P left)
    (hr : AllConstants P right) : AllConstants P (dropNeutral op left right) := by
  have hzero : AllConstants P (number 0 : Tree κ) := allConstants_number hP (by decide)
  have hone : AllConstants P (number 1 : Tree κ) := allConstants_number hP (by decide)
  have hnegOne : AllConstants P (number (-1) : Tree κ) := allConstants_number hP (by decide)
  -- what is left is an operand, a number or an operation on these
  cases op <;> simp only [Term.dropNeutral] <;> split_ifs <;>
    simp only [allConstants_binary, hl, hr, hzero, hone, hnegOne, and_self]

theorem AllConstants.reduce (h : AllConstants P t) : AllConstants P t.reduce := by
  induction t with
  | constant c => exact h
  | var y => exact h
  | binary op left right ihl ihr =>
    obtain ⟨hl, hr⟩ := allConstants_binary.1 h
    rw [Term.reduce, reduceBinary]
    split
    · rename_i c hfold
      refine allConstants_constant.2 ?_
      unfold foldOperator? at hfold
      split at hfold
      · exact hP.foldOperator hfold
      · cases hfold
    · exact (ihl hl).dropNeutral hP (ihr hr)
  | unary f arg ih =>
    rw [Term.reduce, reduceUnary]
    split
    · rename_i c hfold
      refine allConstants_constant.2 ?_
      unfold foldFunc? at hfold
      split at hfold
      · exact hP.foldFunc hfold
      · cases hfold
    · exact allConstants_unary.2 (ih (allConstants_unary.1 h))

/-- **Simplification keeps the property.** -/
theorem AllConstants.simplify (h : AllConstants P t) : AllConstants P (t.simplify passes) :=
  simplify_induction (fun _ hu => hu.reduce hP) passes h

/-! ### Differentiation -/

theorem AllConstants.rule {f : Func} {rule : Tree κ → Tree κ} (hrule : f.derivative? = some rule)
    (h : AllConstants P t) : AllConstants P (rule t) := by
  have hsmall : ∀ n : Int, n ∈ [-2, -1, 0, 1, 2] → AllConstants P (number n : Tree κ) :=
    fun n hn => allConstants_number hP hn
  cases f <;> cases hrule <;> simp [h, hsmall]

/-- **Differentiation keeps the property.** -/
theorem Derives.allConstants (hr : Derives x passes t r) (h : AllConstants P t) :
    AllConstants P r := by
  have hsmall : ∀ n : Int, n ∈ [-2, -1, 0, 1, 2] → AllConstants P (number n : Tree κ) :=
    fun n hn => allConstants_number hP hn
  induction hr with
  | free _ => exact hsmall 0 (by decide)
  | self _ => exact hsmall 1 (by decide)
  | sum _ ht _ _ _ ihu ihv =>
    obtain ⟨hu, hv⟩ := allConstants_binary.1 (ht ▸ h.simplify hP)
    refine AllConstants.simplify hP ?_
    simp [ihu hu, ihv hv]
  | product ht _ _ _ ihu ihv =>
    obtain ⟨hu, hv⟩ := allConstants_binary.1 (ht ▸ h.simplify hP)
    refine AllConstants.simplify hP ?_
    simp [hu, hv, ihu hu, ihv hv]
  | quotient ht _ _ _ ihu ihv =>
    obtain ⟨hu, hv⟩ := allConstants_binary.1 (ht ▸ h.simplify hP)
    refine AllConstants.simplify hP ?_
    simp [hu, hv, ihu hu, ihv hv, hsmall]
  | power hn ht _ _ ihu =>
    obtain ⟨hu, hconstant⟩ := allConstants_binary.1 (ht ▸ h.simplify hP)
    refine AllConstants.simplify hP ?_
    simp [hu, ihu hu, allConstants_constant.1 hconstant, hP.pred hn]
  | chain hrule ht _ _ ihu =>
    have hu := allConstants_unary.1 (ht ▸ h.simplify hP)
    refine AllConstants.simplify hP ?_
    simp [hu.rule hP hrule, ihu hu]

end Kept

end Term

end Formula
