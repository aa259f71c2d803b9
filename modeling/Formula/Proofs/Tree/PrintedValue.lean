import Formula.Expression
import Formula.Proofs.Tree.Reached
import Formula.Proofs.Tree.Simulation

/-!
The value of a printed tree.  Every tree that comes from a formula by simplification and
differentiation has names for its variables (`Reachable.hasNames`), so that its text can be read
again.  Main statement: the text has the value of the tree, except that the minus of a zero is lost
(`compute_toInfix`); a tree with such a zero may have another value
(`compute_reciprocalSample`).
-/

namespace Formula

open Double

namespace Term

/-! ### Reachable trees -/

/-- The trees that formulas are made into. -/
inductive Reachable : Tree Float → Prop
  /-- The tree of a formula. -/
  | parsed {source : String} {sequence : List Token} {t : Tree Float}
    (h : parse source = .ok sequence) (ht : ofPostfix sequence = .ok t) : Reachable t
  | simplify {t : Tree Float} (passes : Int) (h : Reachable t) : Reachable (t.simplify passes)
  | differentiate {t r : Tree Float} {x : String} {passes : Int} (h : Reachable t)
    (hr : t.differentiate x passes = .ok r) : Reachable r

theorem Reachable.reached {t : Tree Float} (h : Reachable t) : @Reached .platform t := by
  induction h with
  | parsed h ht => exact .parsed h ht
  | simplify passes _ ih => exact .simplify passes ih
  | differentiate _ hr ih => exact .differentiate ih hr

theorem Reachable.hasNames {t : Tree Float} (h : Reachable t) : t.hasNames = true :=
  h.reached.hasNames

/-! ### Values -/

theorem evaluate_unsignedConstant (c : Float) (env : Environment Float) :
    ((unsignedConstant c).mapConstants dropZeroSign).evaluate env =
      .ok (.real (dropZeroSign c)) := by
  rw [unsignedConstant]
  split
  · rename_i hnan
    rw [eq_of_isNaN hnan]
    rfl
  · split
    · rename_i hneg
      have hsign := lt_zero_iff.1 hneg
      have hc : view c ≠ .zero .negative := by
        intro hview
        rw [hview] at hsign
        exact hsign
      have habs := (nonNegative_abs hsign).ne_negativeZero
      rw [mapConstants, mapConstants, mapConstants, dropZeroSign_of_ne hc, dropZeroSign_of_ne habs]
      exact congrArg (fun x => Except.ok (Numeric.real x)) (zero_sub_abs hsign)
    · rfl

/-- A tree and the one that a formula says for it have the same value. -/
theorem evaluate_unsigned (t : Tree Float) (env : Environment Float) :
    (t.unsigned.mapConstants dropZeroSign).evaluate env =
      (t.mapConstants dropZeroSign).evaluate env := by
  induction t with
  | constant c => exact evaluate_unsignedConstant c env
  | var x => rfl
  | binary op left right ihl ihr =>
    simp only [unsigned, mapConstants, evaluate, ihl, ihr]
  | unary f arg ih => simp only [unsigned, mapConstants, evaluate, ih]

/-- Whether a number is a zero with a minus. -/
def isNegativeZero (c : Float) : Bool := c == 0.0 && isNegative c

theorem dropZeroSign_of_not_isNegativeZero {c : Float} (h : isNegativeZero c = false) :
    dropZeroSign c = c := by
  refine dropZeroSign_of_ne fun hview => ?_
  have hc : c = -0.0 := view_injective hview
  rw [hc] at h
  exact absurd h (by decide +kernel)

theorem mapConstants_dropZeroSign {t : Tree Float} (h : t.anyConstant isNegativeZero = false) :
    t.mapConstants dropZeroSign = t := by
  induction t with
  | constant c => rw [mapConstants, dropZeroSign_of_not_isNegativeZero h]
  | var x => rfl
  | binary op left right ihl ihr =>
    obtain ⟨hl, hr⟩ := Bool.or_eq_false_iff.1 h
    rw [mapConstants, ihl hl, ihr hr]
  | unary f arg ih => rw [mapConstants, ih h]

theorem compute_of_hasNames {t : Tree Float} (h : t.hasNames = true) (bindings : Bindings Float) :
    (∃ sequence, parse t.toInfix = .ok sequence) ∧
      compute t.toInfix bindings =
        Expression.evaluate ⟨t.mapConstants dropZeroSign, none⟩ bindings := by
  obtain ⟨sequence, hparse, hbuild, -⟩ := ofPostfix_of_renders (renders_toInfix t h)
  refine ⟨⟨sequence, hparse⟩, ?_⟩
  rw [compute, hparse, ok_bind, Formula.evaluate, Expression.evaluate]
  congr 1
  funext env
  rw [replay_evaluator hbuild, evaluate_unsigned]

/-- **The text of a tree has the value of the tree**, but for the signs of the zeros among its
constants.  This is so for all trees that formulas are made into by simplification and
differentiation. -/
theorem compute_toInfix (t : Tree Float) (h : Reachable t) (bindings : Bindings Float) :
    (∃ sequence, parse t.toInfix = .ok sequence) ∧
      compute t.toInfix bindings =
        Expression.evaluate ⟨t.mapConstants dropZeroSign, none⟩ bindings ∧
      (t.anyConstant isNegativeZero = false →
        compute t.toInfix bindings = Expression.evaluate ⟨t, none⟩ bindings) := by
  obtain ⟨hparse, hvalue⟩ := compute_of_hasNames h.hasNames bindings
  refine ⟨hparse, hvalue, fun hzero => ?_⟩
  rw [hvalue, mapConstants_dropZeroSign hzero]

/-! ### Two simplified trees -/

/-- A tree that is read from its text as it is is that of a formula. -/
theorem reachable_of_unsigned {t : Tree Float} (hnames : t.hasNames = true)
    (hsaid : t.unsigned.mapConstants dropZeroSign = t) : Reachable t := by
  obtain ⟨sequence, hparse, hbuild, -⟩ := ofPostfix_of_renders (renders_toInfix t hnames)
  rw [hsaid] at hbuild
  exact .parsed hparse hbuild

/-- The tree of `x*(1-3)`. -/
def scaledSample : Tree Float :=
  binary .times (var "x") (binary .minus (constant 1.0) (constant 3.0))

/-- The text of the simplified sample is `x*(-2)`. -/
theorem compute_scaledSample :
    Reachable (scaledSample.simplify defaultPasses) ∧
      compute (scaledSample.simplify defaultPasses).toInfix [("x", .value (.real (2.5 : Float)))] =
        .ok (.real (-5.0)) := by
  have hsimple : scaledSample.simplify defaultPasses =
      binary .times (var "x") (constant (-2.0)) := by decide +kernel
  have hreachable : Reachable (scaledSample.simplify defaultPasses) :=
    .simplify _ (reachable_of_unsigned (by decide) (by decide +kernel))
  rw [hsimple] at hreachable ⊢
  refine ⟨hreachable, ((compute_toInfix _ hreachable _).2.2 ?_).trans ?_⟩
  · decide +kernel
  · rfl

/-- The tree of `1/(0*(0-1))`. -/
def reciprocalSample : Tree Float :=
  binary .divide (constant 1.0)
    (binary .times (constant 0.0) (binary .minus (constant 0.0) (constant 1.0)))

/-- The divisor is simplified to a zero with a minus, which the text does not show, so that the tree
is minus infinity and its text infinity. -/
theorem compute_reciprocalSample :
    Reachable (reciprocalSample.simplify defaultPasses) ∧
      (reciprocalSample.simplify defaultPasses).toInfix = "1/0" ∧
      Expression.evaluate ⟨reciprocalSample.simplify defaultPasses, none⟩ [] =
        .ok (.real (-(1.0 / 0.0))) ∧
      (compute "1/0" [] : Except Fault (Numeric Float)) = .ok (.real (1.0 / 0.0)) := by
  have hsimple : reciprocalSample.simplify defaultPasses =
      binary .divide (constant 1.0) (constant (-0.0)) := by decide +kernel
  have htext : (binary .divide (constant 1.0) (constant (-0.0)) : Tree Float).toInfix = "1/0" := by
    decide +kernel
  have hreachable : Reachable reciprocalSample :=
    reachable_of_unsigned (by decide) (by decide +kernel)
  refine ⟨.simplify _ hreachable, ?_, ?_, ?_⟩
  · rw [hsimple, htext]
  · rw [hsimple]
    rfl
  · rw [← htext, (compute_of_hasNames (by decide) []).2]
    rfl

end Term

end Formula
