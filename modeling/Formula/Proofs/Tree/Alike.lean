import Formula.Proofs.Number.Doubles
import Formula.Proofs.Tree.Normal
import Mathlib.Data.Option.Basic

/-!
Trees that differ in the signs of zeros only.  Folds of equal constants are equal or refused
together (`foldOperator_rel`, `foldFunc_rel`), and every other rule asks constants only whether they
equal a number, so that a pass takes alike trees to alike trees (`Alike.reduce`).
-/

open Float.Model.UnpackedFloat

namespace Formula.Term

open Doubles

variable {lib : Library}

/-- Trees of one shape whose constants are equal numbers. -/
inductive Alike : Tree (Doubles lib) → Tree (Doubles lib) → Prop
  | constant {c d : Doubles lib} (h : Kernel.eq c d) : Alike (.constant c) (.constant d)
  | var (x : String) : Alike (.var x) (.var x)
  | binary (op : Operator) {left left' right right' : Tree (Doubles lib)} (hl : Alike left left')
    (hr : Alike right right') : Alike (.binary op left right) (.binary op left' right')
  | unary (f : Func) {arg arg' : Tree (Doubles lib)} (h : Alike arg arg') :
    Alike (.unary f arg) (.unary f arg')

variable {t u left left' right right' arg arg' : Tree (Doubles lib)} {c c' d d' : Doubles lib}

theorem Alike.symm (h : Alike t u) : Alike u t := by
  induction h with
  | constant h => exact .constant (eq_iff.2 (eq_iff.1 h).symm)
  | var x => exact .var x
  | binary op _ _ ihl ihr => exact .binary op ihl ihr
  | unary f _ ih => exact .unary f ih

/-- Alike trees are equal. -/
theorem Alike.beq (h : Alike t u) : t == u := by
  show t.equal Constant.same u = true
  induction h with
  | constant h => exact Bool.or_eq_true_iff.2 (.inl h)
  | var x => exact beq_self_eq_true x
  | binary op _ _ ihl ihr => simp [equal, ihl, ihr]
  | unary f _ ih => simp [equal, ih]

/-! ### Folds -/

/-- What an operator on constants is folded to. -/
theorem foldOperator_eq (op : Operator) (c d : Doubles lib) : Constant.foldOperator op c d =
    if op = .power ∧ Complex.needsComplexPower c d then none
    else if Kernel.isFinite (op.onScalars c d) then some (op.onScalars c d) else none := by
  show Constant.ofNumeric? (op.apply (.real c) (.real d)) = _
  cases op with
  | power =>
    simp only [Operator.apply, Numeric.pow, true_and]
    split <;> rfl
  | _ => rfl

theorem foldFunc_eq (f : Func) (c : Doubles lib) : Constant.foldFunc f c =
    if Kernel.isFinite (f.onScalar c) then some (f.onScalar c) else none := by
  show Constant.ofNumeric? (f.apply (.real c)) = _
  rw [Func.apply_real]
  rfl

/-- Results that are equal where one of them is finite are folded alike. -/
theorem rel_of_congr (h : Kernel.isFinite c → Kernel.eq c' c)
    (h' : Kernel.isFinite c' → Kernel.eq c c') :
    Option.Rel (fun x y => Kernel.eq x y = true) (if Kernel.isFinite c then some c else none)
      (if Kernel.isFinite c' then some c' else none) := by
  by_cases hc : Kernel.isFinite c
  · have heq := h hc
    rw [if_pos hc, if_pos ((isFinite_congr heq).symm.trans hc)]
    exact .some (eq_iff.2 (eq_iff.1 heq).symm)
  · have hc' : ¬ Kernel.isFinite c' := by
      intro hc'
      exact hc ((isFinite_congr (h' hc')).symm.trans hc')
    rw [if_neg hc, if_neg hc']
    exact .none

section Congruent

variable (hlib : lib.Congruent)

include hlib

theorem foldOperator_rel (op : Operator) (hc : Kernel.eq c c') (hd : Kernel.eq d d') :
    Option.Rel (fun x y => Kernel.eq x y = true) (Constant.foldOperator op c d)
      (Constant.foldOperator op c' d') := by
  have hc' : Kernel.eq c' c := eq_iff.2 (eq_iff.1 hc).symm
  have hd' : Kernel.eq d' d := eq_iff.2 (eq_iff.1 hd).symm
  rw [foldOperator_eq, foldOperator_eq, needsComplexPower_congr hc hd]
  split
  · exact .none
  · exact rel_of_congr (operator_congr hlib op hc hd) (operator_congr hlib op hc' hd')

theorem foldFunc_rel (f : Func) (hc : Kernel.eq c c') :
    Option.Rel (fun x y => Kernel.eq x y = true) (Constant.foldFunc f c)
      (Constant.foldFunc f c') := by
  have hc' : Kernel.eq c' c := eq_iff.2 (eq_iff.1 hc).symm
  rw [foldFunc_eq, foldFunc_eq]
  exact rel_of_congr (func_congr hlib f hc) (func_congr hlib f hc')

theorem foldOperator?_rel (op : Operator) (hl : Alike left left') (hr : Alike right right') :
    Option.Rel (fun x y => Kernel.eq x y = true) (foldOperator? op left right)
      (foldOperator? op left' right') := by
  cases hl with
  | constant hc =>
    cases hr with
    | constant hd => exact foldOperator_rel hlib op hc hd
    | _ => exact .none
  | _ => exact .none

theorem foldFunc?_rel (f : Func) (h : Alike arg arg') :
    Option.Rel (fun x y => Kernel.eq x y = true) (foldFunc? f arg) (foldFunc? f arg') := by
  cases h with
  | constant hc => exact foldFunc_rel hlib f hc
  | _ => exact .none

end Congruent

/-! ### Neutral operands -/

theorem Alike.isNumber_eq (h : Alike t u) (n : Int) : t.isNumber n = u.isNumber n := by
  cases h with
  | constant h => exact (eq_congr h _).symm
  | _ => rfl

theorem alike_number {n : Int} (h : n ∈ [-1, 0, 1]) :
    Alike (number n : Tree (Doubles lib)) (number n) := by
  have hfinite : (Constant.ofInt n : Doubles lib).view.isFinite = true := by
    simp only [List.mem_cons, List.not_mem_nil, or_false] at h
    rcases h with rfl | rfl | rfl
    · exact congrArg isFinite view_negOne
    · exact congrArg isFinite view_zero
    · exact congrArg isFinite ((congrArg view ofInt_one).trans view_one)
  exact .constant (eq_iff.2 (Double.agree_self hfinite))

theorem dropNeutral_congr (op : Operator) (hl : Alike left left') (hr : Alike right right') :
    Alike (dropNeutral op left right) (dropNeutral op left' right') := by
  cases op with
  | plus =>
    simp only [dropNeutral, hl.isNumber_eq, hr.isNumber_eq]
    split_ifs
    · exact alike_number (by decide)
    · exact hr
    · exact hl
    · exact .binary .plus hl hr
  | minus =>
    simp only [dropNeutral, hl.isNumber_eq, hr.isNumber_eq]
    split_ifs
    · exact alike_number (by decide)
    · exact .binary .times (alike_number (by decide)) hr
    · exact hl
    · exact .binary .minus hl hr
  | times =>
    simp only [dropNeutral, hl.isNumber_eq, hr.isNumber_eq]
    split_ifs
    · exact alike_number (by decide)
    · exact hl
    · exact hr
    · exact .binary .times hl hr
  | power =>
    simp only [dropNeutral, hr.isNumber_eq]
    split_ifs
    · exact hl
    · exact alike_number (by decide)
    · exact .binary .power hl hr
  | divide =>
    simp only [dropNeutral, hl.isNumber_eq]
    split_ifs
    · exact alike_number (by decide)
    · exact .binary .divide hl hr

/-! ### Passes -/

section Congruent

variable (hlib : lib.Congruent)

include hlib

theorem reduceBinary_congr (op : Operator) (hl : Alike left left') (hr : Alike right right') :
    Alike (reduceBinary op left right) (reduceBinary op left' right') := by
  have hfold := foldOperator?_rel hlib op hl hr
  rw [reduceBinary, reduceBinary]
  generalize foldOperator? op left right = folded at hfold ⊢
  generalize foldOperator? op left' right' = folded' at hfold ⊢
  cases hfold with
  | some h => exact .constant h
  | none => exact dropNeutral_congr op hl hr

theorem reduceUnary_congr (f : Func) (h : Alike arg arg') :
    Alike (reduceUnary f arg) (reduceUnary f arg') := by
  have hfold := foldFunc?_rel hlib f h
  rw [reduceUnary, reduceUnary]
  generalize foldFunc? f arg = folded at hfold ⊢
  generalize foldFunc? f arg' = folded' at hfold ⊢
  cases hfold with
  | some h => exact .constant h
  | none => exact .unary f h

/-- **A pass takes alike trees to alike trees.** -/
theorem Alike.reduce (h : Alike t u) : Alike t.reduce u.reduce := by
  induction h with
  | constant h => exact .constant h
  | var x => exact .var x
  | binary op _ _ ihl ihr => exact reduceBinary_congr hlib op ihl ihr
  | unary f _ ih => exact reduceUnary_congr hlib f ih

end Congruent

end Formula.Term
