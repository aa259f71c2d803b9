import Formula.Tree.Simplify
import Formula.Tree.Traversal
import Mathlib.Tactic.Common

/-!
Normal forms.  A tree is normal when no rule of simplification applies at any of its nodes.  A pass
makes every tree normal (`normal_reduce`) and leaves a normal tree as it is (`reduce_of_normal`), so
that one pass is as good as any number of them.
-/

namespace Formula

/-- What is asked of constants so that one pass is enough: a constant and its copy are the same, and
minus one opens no rule when it takes the place of a zero in a difference that could not be
folded. -/
class Constant.Lawful (κ : Type) [Constant κ] : Prop where
  same_self : ∀ c : κ, Constant.same c c
  negOne_ne_zero : ¬ Constant.eq (Constant.ofInt (-1) : κ) (Constant.ofInt 0)
  negOne_ne_one : ¬ Constant.eq (Constant.ofInt (-1) : κ) (Constant.ofInt 1)
  ne_one_of_unfolded : ∀ {z c : κ}, Constant.eq z (Constant.ofInt 0) →
    Constant.foldOperator .minus z c = none → ¬ Constant.eq c (Constant.ofInt 1)
  negated_unfolded : ∀ {z c : κ}, Constant.eq z (Constant.ofInt 0) →
    Constant.foldOperator .minus z c = none →
    Constant.foldOperator .times (Constant.ofInt (-1)) c = none

namespace Term

variable {κ : Type} [Constant κ]

/-! ### Redexes -/

/-- The trees that a rule applies to at the root. -/
inductive Redex : Tree κ → Prop
  | zero_plus {left right} : left.isNumber 0 → Redex (binary .plus left right)
  | plus_zero {left right} : right.isNumber 0 → Redex (binary .plus left right)
  | zero_minus {left right} : left.isNumber 0 → Redex (binary .minus left right)
  | minus_zero {left right} : right.isNumber 0 → Redex (binary .minus left right)
  | zero_times {left right} : left.isNumber 0 → Redex (binary .times left right)
  | times_zero {left right} : right.isNumber 0 → Redex (binary .times left right)
  | one_times {left right} : left.isNumber 1 → Redex (binary .times left right)
  | times_one {left right} : right.isNumber 1 → Redex (binary .times left right)
  | power_one {left right} : right.isNumber 1 → Redex (binary .power left right)
  | power_zero {left right} : right.isNumber 0 → Redex (binary .power left right)
  | zero_divide {left right} : left.isNumber 0 → Redex (binary .divide left right)
  | operator {op left right} : (foldOperator? op left right).isSome → Redex (binary op left right)
  | func {f arg} : (foldFunc? f arg).isSome → Redex (unary f arg)

/-- No rule applies at any node. -/
def Normal (t : Tree κ) : Prop := ∀ s ∈ t.depthFirst, ¬ Redex s

variable {op : Operator} {f : Func} {left right arg t : Tree κ}

theorem not_redex_constant (c : κ) : ¬ Redex (constant c) := nofun

theorem not_redex_var (x : String) : ¬ Redex (var x : Tree κ) := nofun

theorem normal_constant (c : κ) : Normal (constant c) := by
  intro s hs
  obtain rfl := List.mem_singleton.1 hs
  exact not_redex_constant c

theorem normal_var (x : String) : Normal (var x : Tree κ) := by
  intro s hs
  obtain rfl := List.mem_singleton.1 hs
  exact not_redex_var x

theorem normal_binary : Normal (binary op left right) ↔
    ¬ Redex (binary op left right) ∧ Normal left ∧ Normal right := by
  simp only [Normal, depthFirst, List.mem_cons, List.mem_append, or_imp, forall_and, forall_eq]

theorem normal_unary : Normal (unary f arg) ↔ ¬ Redex (unary f arg) ∧ Normal arg := by
  simp only [Normal, depthFirst, List.mem_cons, forall_eq_or_imp]

/-! ### A normal tree is left alone -/

theorem dropNeutral_of_not_redex (h : ¬ Redex (binary op left right)) :
    dropNeutral op left right = binary op left right := by
  cases op with
  | plus =>
    have hl : ¬ left.isNumber 0 := fun hl => h (.zero_plus hl)
    have hr : ¬ right.isNumber 0 := fun hr => h (.plus_zero hr)
    simp only [dropNeutral, hl, hr, Bool.false_and, Bool.false_eq_true, if_false]
  | minus =>
    have hl : ¬ left.isNumber 0 := fun hl => h (.zero_minus hl)
    have hr : ¬ right.isNumber 0 := fun hr => h (.minus_zero hr)
    simp only [dropNeutral, hl, hr, Bool.false_and, Bool.false_eq_true, if_false]
  | times =>
    have hl : ¬ left.isNumber 0 := fun hl => h (.zero_times hl)
    have hr : ¬ right.isNumber 0 := fun hr => h (.times_zero hr)
    have hl' : ¬ left.isNumber 1 := fun hl => h (.one_times hl)
    have hr' : ¬ right.isNumber 1 := fun hr => h (.times_one hr)
    simp only [dropNeutral, hl, hr, hl', hr', Bool.or_false, Bool.false_eq_true, if_false]
  | power =>
    have hone : ¬ right.isNumber 1 := fun hr => h (.power_one hr)
    have hzero : ¬ right.isNumber 0 := fun hr => h (.power_zero hr)
    simp only [dropNeutral, hone, hzero, Bool.false_eq_true, if_false]
  | divide =>
    have hl : ¬ left.isNumber 0 := fun hl => h (.zero_divide hl)
    simp only [dropNeutral, hl, Bool.false_eq_true, if_false]

theorem reduceBinary_of_not_redex (h : ¬ Redex (binary op left right)) :
    reduceBinary op left right = binary op left right := by
  cases hfold : foldOperator? op left right with
  | some c => exact absurd (.operator (by rw [hfold]; rfl)) h
  | none => simp only [reduceBinary, hfold, dropNeutral_of_not_redex h]

theorem reduceUnary_of_not_redex (h : ¬ Redex (unary f arg)) :
    reduceUnary f arg = unary f arg := by
  cases hfold : foldFunc? f arg with
  | some c => exact absurd (.func (by rw [hfold]; rfl)) h
  | none => simp only [reduceUnary, hfold]

/-- A pass does not change a normal tree. -/
theorem reduce_of_normal (h : Normal t) : t.reduce = t := by
  induction t with
  | constant c => rfl
  | var x => rfl
  | binary op left right ihl ihr =>
    obtain ⟨hroot, hl, hr⟩ := normal_binary.1 h
    rw [reduce, ihl hl, ihr hr, reduceBinary_of_not_redex hroot]
  | unary f arg ih =>
    obtain ⟨hroot, harg⟩ := normal_unary.1 h
    rw [reduce, ih harg, reduceUnary_of_not_redex hroot]

/-! ### A pass makes a tree normal -/

theorem normal_number (n : Int) : Normal (number n : Tree κ) := normal_constant _

section Lawful

variable [Constant.Lawful κ]

/-- The product that replaces a difference from zero opens no rule. -/
theorem not_redex_negated (hleft : left.isNumber 0) (hright : ¬ right.isNumber 0)
    (hfold : foldOperator? .minus left right = none) :
    ¬ Redex (binary .times (number (-1)) right) := by
  intro h
  cases h with
  | zero_times h => exact Constant.Lawful.negOne_ne_zero h
  | one_times h => exact Constant.Lawful.negOne_ne_one h
  | times_zero h => exact hright h
  | times_one h =>
    cases left with
    | constant z =>
      cases right with
      | constant c => exact Constant.Lawful.ne_one_of_unfolded hleft hfold h
      | _ => exact absurd h nofun
    | _ => exact absurd hleft nofun
  | operator h =>
    cases left with
    | constant z =>
      cases right with
      | constant c =>
        have hnone : foldOperator? .times (number (-1)) (constant c) = none :=
          Constant.Lawful.negated_unfolded hleft hfold
        rw [hnone] at h
        exact absurd h nofun
      | _ => exact absurd h nofun
    | _ => exact absurd hleft nofun

theorem normal_dropNeutral (hfold : foldOperator? op left right = none) (hl : Normal left)
    (hr : Normal right) : Normal (dropNeutral op left right) := by
  have hstop : ¬ (foldOperator? op left right).isSome := by simp [hfold]
  cases op with
  | plus =>
    simp only [dropNeutral]
    split_ifs with hboth hzl hzr
    · exact normal_number 0
    · exact hr
    · exact hl
    · refine normal_binary.2 ⟨?_, hl, hr⟩
      intro h
      cases h <;> contradiction
  | minus =>
    simp only [dropNeutral]
    split_ifs with hboth hzl hzr
    · exact normal_number 0
    · have hzr : ¬ right.isNumber 0 := by simpa [hzl] using hboth
      exact normal_binary.2 ⟨not_redex_negated hzl hzr hfold, normal_number _, hr⟩
    · exact hl
    · refine normal_binary.2 ⟨?_, hl, hr⟩
      intro h
      cases h <;> contradiction
  | times =>
    simp only [dropNeutral]
    split_ifs with hzero hor hol
    · exact normal_number 0
    · exact hl
    · exact hr
    · obtain ⟨hzl, hzr⟩ := not_or.1 (mt Bool.or_eq_true_iff.2 hzero)
      refine normal_binary.2 ⟨?_, hl, hr⟩
      intro h
      cases h <;> contradiction
  | power =>
    simp only [dropNeutral]
    split_ifs with hone hzero
    · exact hl
    · exact normal_number 1
    · refine normal_binary.2 ⟨?_, hl, hr⟩
      intro h
      cases h <;> contradiction
  | divide =>
    simp only [dropNeutral]
    split_ifs with hzero
    · exact normal_number 0
    · refine normal_binary.2 ⟨?_, hl, hr⟩
      intro h
      cases h <;> contradiction

theorem normal_reduceBinary (hl : Normal left) (hr : Normal right) :
    Normal (reduceBinary op left right) := by
  cases hfold : foldOperator? op left right with
  | some c =>
    simp only [reduceBinary, hfold]
    exact normal_constant c
  | none =>
    simp only [reduceBinary, hfold]
    exact normal_dropNeutral hfold hl hr

omit [Constant.Lawful κ] in
theorem normal_reduceUnary (h : Normal arg) : Normal (reduceUnary f arg) := by
  cases hfold : foldFunc? f arg with
  | some c =>
    simp only [reduceUnary, hfold]
    exact normal_constant c
  | none =>
    simp only [reduceUnary, hfold]
    refine normal_unary.2 ⟨?_, h⟩
    intro hredex
    cases hredex with
    | func hsome => exact absurd hsome (by simp [hfold])

/-- **A pass makes every tree normal.** -/
theorem normal_reduce (t : Tree κ) : Normal t.reduce := by
  induction t with
  | constant c => exact normal_constant c
  | var x => exact normal_var x
  | binary op left right ihl ihr => exact normal_reduceBinary ihl ihr
  | unary f arg ih => exact normal_reduceUnary ih

theorem reduce_reduce (t : Tree κ) : t.reduce.reduce = t.reduce :=
  reduce_of_normal (normal_reduce t)

/-! ### Simplification is one pass -/

theorem beq_self (t : Tree κ) : t == t := equal_refl Constant.Lawful.same_self t

theorem settle_reduce (n : Nat) (t : Tree κ) : settle n t.reduce = t.reduce := by
  induction n with
  | zero => rfl
  | succ n ih => simp only [settle, reduce_reduce, beq_self, if_true]

theorem settle_succ (n : Nat) (t : Tree κ) : settle (n + 1) t = t.reduce := by
  simp only [settle, settle_reduce, ite_self]

theorem simplify_eq_reduce (passes : Int) (t : Tree κ) : t.simplify passes = t.reduce := by
  obtain ⟨n, hn⟩ : ∃ n, (max 1 passes).toNat = n + 1 := ⟨(max 1 passes).toNat - 1, by omega⟩
  rw [simplify, hn, settle_succ]

end Lawful

end Term

end Formula
