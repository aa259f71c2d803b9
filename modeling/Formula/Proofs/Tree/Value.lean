import Formula.Proofs.Number.Laws
import Formula.Tree.Evaluate
import Formula.Tree.Simplify
import Formula.Tree.Traversal
import Mathlib.Tactic.Common

/-!
Simplification and the value of a tree.  Over lawful scalars a pass preserves the value of a tree
all of whose subtrees have finite values (`denotes_reduce`).
-/

namespace Formula.Term

variable {K : Type} [Kernel K] {env : Environment K}

/-- Every subtree has a finite value. -/
def Tame (env : Environment K) (t : Tree K) : Prop :=
  ∀ s ∈ t.depthFirst, ∃ x, Kernel.isFinite x ∧ s.evaluate env = .ok (.real x)

/-- The value of a tree is a scalar equal to a given one. -/
def Denotes (env : Environment K) (t : Tree K) (x : K) : Prop :=
  ∃ y, t.evaluate env = .ok (.real y) ∧ Kernel.eq y x

/-! ### Tame trees -/

section Tame

variable {op : Operator} {f : Func} {left right arg t : Tree K}

theorem Tame.value (h : Tame env t) :
    ∃ x, Kernel.isFinite x ∧ t.evaluate env = .ok (.real x) := by
  refine h t ?_
  cases t <;> simp only [depthFirst, List.mem_cons, true_or]

/-- Whether a value is a finite scalar. -/
def isFiniteScalar : Except Fault (Numeric K) → Bool
  | .ok (.real x) => Kernel.isFinite x
  | _ => false

theorem isFiniteScalar_iff {v : Except Fault (Numeric K)} :
    isFiniteScalar v ↔ ∃ x, Kernel.isFinite x ∧ v = .ok (.real x) := by
  constructor
  · intro h
    match v, h with
    | .ok (.real x), h => exact ⟨x, h, rfl⟩
  · rintro ⟨x, hx, rfl⟩
    exact hx

instance : Decidable (Tame env t) :=
  decidable_of_iff (∀ s ∈ t.depthFirst, isFiniteScalar (s.evaluate env)) <|
    forall₂_congr fun _ _ => isFiniteScalar_iff

theorem tame_left (h : Tame env (binary op left right)) : Tame env left := by
  intro s hs
  exact h s (List.mem_cons_of_mem _ (List.mem_append_left _ hs))

theorem tame_right (h : Tame env (binary op left right)) : Tame env right := by
  intro s hs
  exact h s (List.mem_cons_of_mem _ (List.mem_append_right _ hs))

theorem tame_arg (h : Tame env (unary f arg)) : Tame env arg := by
  intro s hs
  exact h s (List.mem_cons_of_mem _ hs)

end Tame

/-! ### Folded operations -/

section Fold

variable {op : Operator} {f : Func} {left right arg s t : Tree K} {c x : K}

theorem Denotes.congr (h : Denotes env t x) (hst : s.evaluate env = t.evaluate env) :
    Denotes env s x := by
  obtain ⟨y, hy, hyx⟩ := h
  exact ⟨y, hst.trans hy, hyx⟩

/-- Only finite scalars are folded. -/
theorem ofNumeric?_eq_some {v : Numeric K} :
    Constant.ofNumeric? v = some c ↔ v = .real c ∧ Kernel.isFinite c := by
  cases v with
  | real x =>
    simp only [Constant.ofNumeric?, Option.ite_none_right_eq_some, Option.some.injEq,
      Numeric.real.injEq]
    constructor
    · rintro ⟨hx, rfl⟩
      exact ⟨rfl, hx⟩
    · rintro ⟨rfl, hx⟩
      exact ⟨hx, rfl⟩
  | complex w => simp only [Constant.ofNumeric?, reduceCtorEq, false_and]

variable [Literal K]

/-- A folded operation has the value of the operation. -/
theorem evaluate_of_foldOperator? (h : foldOperator? op left right = some c) :
    (binary op left right).evaluate env = .ok (.real c) := by
  cases left with
  | constant a =>
    cases right with
    | constant b => exact congrArg Except.ok (ofNumeric?_eq_some.1 h).1
    | _ => exact absurd h nofun
  | _ => exact absurd h nofun

theorem evaluate_of_foldFunc? (h : foldFunc? f arg = some c) :
    (unary f arg).evaluate env = .ok (.real c) := by
  cases arg with
  | constant a => exact congrArg Except.ok (ofNumeric?_eq_some.1 h).1
  | _ => exact absurd h nofun

end Fold

/-! ### Values of operations -/

section Lawful

variable [Literal K] [Kernel.Lawful K] {op : Operator} {f : Func} {left right arg t : Tree K}
  {w x y z : K}

theorem Denotes.trans (h : Denotes env t x) (hxy : Kernel.eq x y) : Denotes env t y := by
  obtain ⟨v, ht, hv⟩ := h
  exact ⟨v, ht, Kernel.Lawful.eq_trans hv hxy⟩

theorem denotes_binary (hl : Denotes env left x) (hr : Denotes env right y)
    (h : op.apply (.real x) (.real y) = .real z) (hz : Kernel.isFinite z) :
    Denotes env (binary op left right) z := by
  obtain ⟨x', hleft, hx⟩ := hl
  obtain ⟨y', hright, hy⟩ := hr
  obtain ⟨z', happly, hz'⟩ := op.apply_congr (Kernel.Lawful.eq_symm hx)
    (Kernel.Lawful.eq_symm hy) h hz
  refine ⟨z', ?_, hz'⟩
  rw [evaluate, hleft, hright, ← happly]
  rfl

theorem denotes_unary (harg : Denotes env arg x) (h : f.apply (.real x) = .real z)
    (hz : Kernel.isFinite z) : Denotes env (unary f arg) z := by
  obtain ⟨x', heval, hx⟩ := harg
  obtain ⟨z', happly, hz'⟩ := f.apply_congr (Kernel.Lawful.eq_symm hx) h hz
  refine ⟨z', ?_, hz'⟩
  rw [evaluate, heval, ← happly]
  rfl

/-! ### Dropped operands -/

theorem eq_of_isNumber {n : Int} (h : t.isNumber n) (ht : Denotes env t x) :
    Kernel.eq x (Literal.ofNumeral (Numeral.ofInt n)) := by
  cases t with
  | constant c =>
    obtain ⟨y, hy, hyx⟩ := ht
    obtain rfl : c = y := Numeric.real.inj (Except.ok.inj hy)
    exact Kernel.Lawful.eq_trans (Kernel.Lawful.eq_symm hyx) h
  | _ => exact absurd h nofun

theorem eq_zero_of_isNumber (h : t.isNumber 0) (ht : Denotes env t x) : Kernel.eq x 0 := by
  rw [← Kernel.Lawful.ofInt_zero]
  exact eq_of_isNumber h ht

theorem eq_one_of_isNumber (h : t.isNumber 1) (ht : Denotes env t x) : Kernel.eq x 1 := by
  rw [← Kernel.Lawful.ofInt_one]
  exact eq_of_isNumber h ht

theorem denotes_number_zero (h : Kernel.eq 0 x) : Denotes env (number 0) x :=
  ⟨_, rfl, (congrArg (Kernel.eq · x) Kernel.Lawful.ofInt_zero).trans h⟩

theorem denotes_number_one (h : Kernel.eq 1 x) : Denotes env (number 1) x :=
  ⟨_, rfl, (congrArg (Kernel.eq · x) Kernel.Lawful.ofInt_one).trans h⟩

/-- An equal left operand may stand in for the left operand of a finite result. -/
theorem eq_of_left (op : Operator) (hx : Kernel.eq x w) (hy : Kernel.isFinite y)
    (hz : Kernel.isFinite (op.onScalars x y)) :
    Kernel.eq (op.onScalars w y) (op.onScalars x y) :=
  Kernel.Lawful.operator_congr op hx (Kernel.Lawful.eq_self hy) hz

/-- An equal right operand may stand in for the right operand of a finite result. -/
theorem eq_of_right (op : Operator) (hy : Kernel.eq y w) (hx : Kernel.isFinite x)
    (hz : Kernel.isFinite (op.onScalars x y)) :
    Kernel.eq (op.onScalars x w) (op.onScalars x y) :=
  Kernel.Lawful.operator_congr op (Kernel.Lawful.eq_self hx) hy hz

/-- A difference from zero has the value of the product with minus one. -/
theorem denotes_negated (hx : Kernel.eq x 0) (hr : Denotes env right y) (hy : Kernel.isFinite y)
    (hz : Kernel.isFinite (Operator.minus.onScalars x y)) :
    Denotes env (binary .times (number (-1)) right) (Operator.minus.onScalars x y) := by
  obtain ⟨y', hright, hyy'⟩ := hr
  have hyy' := Kernel.Lawful.eq_symm hyy'
  have hdifference := Kernel.Lawful.operator_congr .minus hx hyy' hz
  have hnegated := Kernel.Lawful.zero_sub (Kernel.Lawful.isFinite_of_eq hyy' hy)
  refine ⟨Literal.ofNumeral (Numeral.ofInt (-1)) * y', ?_, ?_⟩
  · rw [evaluate, hright]
    rfl
  · exact Kernel.Lawful.eq_trans (Kernel.Lawful.eq_symm hnegated) hdifference

theorem denotes_dropNeutral (hl : Denotes env left x) (hr : Denotes env right y)
    (hx : Kernel.isFinite x) (hy : Kernel.isFinite y)
    (h : op.apply (.real x) (.real y) = .real z) (hz : Kernel.isFinite z) :
    Denotes env (dropNeutral op left right) z := by
  have hkeep := denotes_binary hl hr h hz
  obtain rfl := Operator.eq_onScalars h
  cases op with
  | plus =>
    simp only [dropNeutral]
    split_ifs with hboth hzl hzr
    · obtain ⟨hzl, hzr⟩ := Bool.and_eq_true_iff.1 hboth
      have hleft := eq_of_left .plus (eq_zero_of_isNumber hzl hl) hy hz
      have hright := eq_zero_of_isNumber hzr hr
      refine denotes_number_zero (Kernel.Lawful.eq_trans (Kernel.Lawful.eq_symm ?_) hleft)
      exact Kernel.Lawful.eq_trans (Kernel.Lawful.zero_add hy) hright
    · have hleft := eq_of_left .plus (eq_zero_of_isNumber hzl hl) hy hz
      have hsum := Kernel.Lawful.eq_symm (Kernel.Lawful.zero_add hy)
      exact hr.trans (Kernel.Lawful.eq_trans hsum hleft)
    · have hright := eq_of_right .plus (eq_zero_of_isNumber hzr hr) hx hz
      have hsum := Kernel.Lawful.eq_symm (Kernel.Lawful.add_zero hx)
      exact hl.trans (Kernel.Lawful.eq_trans hsum hright)
    · exact hkeep
  | minus =>
    simp only [dropNeutral]
    split_ifs with hboth hzl hzr
    · obtain ⟨hzl, hzr⟩ := Bool.and_eq_true_iff.1 hboth
      have hright := eq_of_right .minus (eq_zero_of_isNumber hzr hr) hx hz
      have hleft := eq_zero_of_isNumber hzl hl
      refine denotes_number_zero (Kernel.Lawful.eq_trans (Kernel.Lawful.eq_symm ?_) hright)
      exact Kernel.Lawful.eq_trans (Kernel.Lawful.sub_zero hx) hleft
    · exact denotes_negated (eq_zero_of_isNumber hzl hl) hr hy hz
    · have hright := eq_of_right .minus (eq_zero_of_isNumber hzr hr) hx hz
      have hdifference := Kernel.Lawful.eq_symm (Kernel.Lawful.sub_zero hx)
      exact hl.trans (Kernel.Lawful.eq_trans hdifference hright)
    · exact hkeep
  | times =>
    simp only [dropNeutral]
    split_ifs with hzero hone hone'
    · refine denotes_number_zero ?_
      rcases Bool.or_eq_true_iff.1 hzero with hzl | hzr
      · have hleft := eq_of_left .times (eq_zero_of_isNumber hzl hl) hy hz
        exact Kernel.Lawful.eq_trans (Kernel.Lawful.eq_symm (Kernel.Lawful.zero_mul hy)) hleft
      · have hright := eq_of_right .times (eq_zero_of_isNumber hzr hr) hx hz
        exact Kernel.Lawful.eq_trans (Kernel.Lawful.eq_symm (Kernel.Lawful.mul_zero hx)) hright
    · have hright := eq_of_right .times (eq_one_of_isNumber hone hr) hx hz
      have hproduct := Kernel.Lawful.eq_symm (Kernel.Lawful.mul_one hx)
      exact hl.trans (Kernel.Lawful.eq_trans hproduct hright)
    · have hleft := eq_of_left .times (eq_one_of_isNumber hone' hl) hy hz
      have hproduct := Kernel.Lawful.eq_symm (Kernel.Lawful.one_mul hy)
      exact hr.trans (Kernel.Lawful.eq_trans hproduct hleft)
    · exact hkeep
  | power =>
    simp only [dropNeutral]
    split_ifs with hone hzero
    · have hright := eq_of_right .power (eq_one_of_isNumber hone hr) hx hz
      have hpower := Kernel.Lawful.eq_symm (Kernel.Lawful.power_one hx)
      exact hl.trans (Kernel.Lawful.eq_trans hpower hright)
    · have hright := eq_of_right .power (eq_zero_of_isNumber hzero hr) hx hz
      have hpower := Kernel.Lawful.eq_symm (Kernel.Lawful.power_zero hx)
      exact denotes_number_one (Kernel.Lawful.eq_trans hpower hright)
    · exact hkeep
  | divide =>
    simp only [dropNeutral]
    split_ifs with hzero
    · have hleft := eq_of_left .divide (eq_zero_of_isNumber hzero hl) hy hz
      have hfinite := Kernel.Lawful.isFinite_of_eq (Kernel.Lawful.eq_symm hleft) hz
      have hquotient := Kernel.Lawful.eq_symm (Kernel.Lawful.zero_div hfinite)
      exact denotes_number_zero (Kernel.Lawful.eq_trans hquotient hleft)
    · exact hkeep

/-! ### A pass -/

theorem denotes_reduceBinary (hl : Denotes env left x) (hr : Denotes env right y)
    (hx : Kernel.isFinite x) (hy : Kernel.isFinite y)
    (h : op.apply (.real x) (.real y) = .real z) (hz : Kernel.isFinite z) :
    Denotes env (reduceBinary op left right) z := by
  cases hfold : foldOperator? op left right with
  | some c =>
    simp only [reduceBinary, hfold]
    exact (denotes_binary hl hr h hz).congr (evaluate_of_foldOperator? hfold).symm
  | none =>
    simp only [reduceBinary, hfold]
    exact denotes_dropNeutral hl hr hx hy h hz

theorem denotes_reduceUnary (harg : Denotes env arg x) (h : f.apply (.real x) = .real z)
    (hz : Kernel.isFinite z) : Denotes env (reduceUnary f arg) z := by
  cases hfold : foldFunc? f arg with
  | some c =>
    simp only [reduceUnary, hfold]
    exact (denotes_unary harg h hz).congr (evaluate_of_foldFunc? hfold).symm
  | none =>
    simp only [reduceUnary, hfold]
    exact denotes_unary harg h hz

/-- **A pass preserves the value** of a tree all of whose subtrees have finite values. -/
theorem denotes_reduce (h : Tame env t) (hz : Kernel.isFinite z)
    (ht : t.evaluate env = .ok (.real z)) : Denotes env t.reduce z := by
  induction t generalizing z with
  | constant c => exact ⟨z, ht, Kernel.Lawful.eq_self hz⟩
  | var x => exact ⟨z, ht, Kernel.Lawful.eq_self hz⟩
  | binary op left right ihl ihr =>
    obtain ⟨x, hx, hleft⟩ := (tame_left h).value
    obtain ⟨y, hy, hright⟩ := (tame_right h).value
    rw [evaluate, hleft, hright] at ht
    exact denotes_reduceBinary (ihl (tame_left h) hx hleft) (ihr (tame_right h) hy hright) hx hy
      (Except.ok.inj ht) hz
  | unary f arg ih =>
    obtain ⟨x, hx, harg⟩ := (tame_arg h).value
    rw [evaluate, harg] at ht
    exact denotes_reduceUnary (ih (tame_arg h) hx harg) (Except.ok.inj ht) hz

end Lawful

end Formula.Term
