import Formula.Proofs.Number.Doubles
import Formula.Proofs.Tree.Normal
import Formula.Proofs.Tree.Value

/-!
Simplification of trees over the doubles.  The constants are lawful, marked or not, so that one pass
is enough; over a regular library the value of a tree is preserved wherever all its subtrees have
finite values.
-/

open Float.Model Float.Model.UnpackedFloat

namespace Formula

/-! ### The constants -/

namespace Doubles

open Double

variable {lib : Library} {x y : Doubles lib}

theorem eq_ofInt_zero : Constant.eq x (Constant.ofInt 0) ↔ Agree x.view (.zero .positive) := by
  rw [← view_zero]
  exact eq_iff

theorem eq_ofInt_one : Constant.eq x (Constant.ofInt 1) ↔ Agree x.view (unit .positive) := by
  rw [← view_one, ← ofInt_one]
  exact eq_iff

theorem view_ofInt_negOne : (Constant.ofInt (-1) : Doubles lib).view = unit .negative :=
  view_negOne

theorem not_agree_negOne {f : UnpackedFloat} (hf : unit .negative ≠ f) :
    ¬ Agree (Constant.ofInt (-1) : Doubles lib).view f := by
  rw [view_ofInt_negOne]
  rintro (⟨h, -⟩ | ⟨h, -⟩)
  · exact hf h
  · exact h

/-- An operation other than a power stays unfolded when its result is not finite. -/
theorem foldOperator_eq_none_iff (op : Operator) (hop : op ≠ .power) :
    Constant.foldOperator op x y = none ↔ ¬ (view (op.onScalars x y)).isFinite := by
  have hreal : op.apply (.real x) (.real y) = .real (op.onScalars x y) := by
    cases op with
    | power => exact absurd rfl hop
    | _ => rfl
  show Constant.ofNumeric? (op.apply (.real x) (.real y)) = none ↔
    ¬ Kernel.isFinite (op.onScalars x y)
  rw [hreal, Constant.ofNumeric?]
  split <;> simp_all

instance : Constant.Lawful (Doubles lib) where
  same_self c := by
    show (Kernel.eq c c || (!Kernel.eq c c && !Kernel.eq c c)) = true
    cases Kernel.eq c c <;> rfl
  negOne_ne_zero h := not_agree_negOne (f := .zero .positive) nofun (eq_ofInt_zero.1 h)
  negOne_ne_one h := not_agree_negOne (f := unit .positive) nofun (eq_ofInt_one.1 h)
  ne_one_of_unfolded {z c} hz hfold h := by
    rw [foldOperator_eq_none_iff .minus (by decide)] at hfold
    have hfinite := (eq_ofInt_one.1 h).isFinite_eq
    exact hfold (isFinite_zero_sub (fits_view c) hfinite (eq_ofInt_zero.1 hz).isZero)
  negated_unfolded {z c} hz hfold := by
    rw [foldOperator_eq_none_iff .minus (by decide)] at hfold
    rw [foldOperator_eq_none_iff .times (by decide)]
    intro hproduct
    rw [Operator.onScalars, view_mul, view_ofInt_negOne] at hproduct
    have hfinite := isFinite_of_unit_mul hproduct
    exact hfold (isFinite_zero_sub (fits_view c) hfinite (eq_ofInt_zero.1 hz).isZero)

end Doubles

instance : Constant.Lawful Float := inferInstanceAs (Constant.Lawful (Doubles .platform))

/-- A mark does not take part in the arithmetic. -/
instance {κ : Type} [Constant κ] [Constant.Lawful κ] : Constant.Lawful (Marked κ) where
  same_self c := by
    show (_ || (c.mark == c.mark && Constant.same c.value c.value)) = true
    rw [Constant.Lawful.same_self, beq_self_eq_true, Bool.and_self, Bool.or_true]
  negOne_ne_zero := Constant.Lawful.negOne_ne_zero (κ := κ)
  negOne_ne_one := Constant.Lawful.negOne_ne_one (κ := κ)
  ne_one_of_unfolded hz hfold :=
    Constant.Lawful.ne_one_of_unfolded (κ := κ) hz (Option.map_eq_none_iff.1 hfold)
  negated_unfolded hz hfold :=
    Option.map_eq_none_iff.2 <|
      Constant.Lawful.negated_unfolded (κ := κ) hz (Option.map_eq_none_iff.1 hfold)

namespace Term

/-! ### One pass is enough -/

section Foldable

variable {K : Type} [Kernel K] [Literal K]

/-- An operation on constants only whose value is a finite scalar. -/
def Foldable (t : Tree (Marked K)) : Prop :=
  t.children ≠ [] ∧ (∀ u ∈ t.children, ∃ c, u = constant c) ∧
    ∃ env x, (t.mapConstants Marked.value).evaluate env = .ok (.real x) ∧ Kernel.isFinite x

theorem Foldable.redex {t : Tree (Marked K)} (h : Foldable t) : Redex t := by
  obtain ⟨hchildren, hconstant, env, x, hvalue, hx⟩ := h
  cases t with
  | constant c => exact absurd rfl hchildren
  | var name => exact absurd rfl hchildren
  | binary op left right =>
    obtain ⟨c, rfl⟩ := hconstant left (by simp [children])
    obtain ⟨d, rfl⟩ := hconstant right (by simp [children])
    have hfold : Constant.ofNumeric? (op.apply (.real c.value) (.real d.value)) = some x :=
      ofNumeric?_eq_some.2 ⟨Except.ok.inj hvalue, hx⟩
    exact .operator (Option.isSome_map.trans (congrArg Option.isSome hfold))
  | unary f arg =>
    obtain ⟨c, rfl⟩ := hconstant arg (by simp [children])
    have hfold : Constant.ofNumeric? (f.apply (.real c.value)) = some x :=
      ofNumeric?_eq_some.2 ⟨Except.ok.inj hvalue, hx⟩
    exact .func (Option.isSome_map.trans (congrArg Option.isSome hfold))

end Foldable

/-- **Simplification is one pass.**  A second pass changes nothing, the number of passes does not
matter, a simplified tree is simple, and no rule applies at any of its nodes. -/
theorem simplify_one_pass (t : Tree (Marked Float)) :
    t.reduce.reduce = t.reduce ∧ t.reduce.reduce == t.reduce ∧
      (∀ n m, t.simplify n = t.simplify m) ∧
      (∀ n m, (t.simplify n).simplify m = t.simplify n) ∧
      ∀ n, ∀ s ∈ (t.simplify n).depthFirst, ¬ Redex s ∧ ¬ Foldable s := by
  refine ⟨reduce_reduce t, ?_, ?_, ?_, ?_⟩
  · rw [reduce_reduce]
    exact beq_self _
  · intro n m
    rw [simplify_eq_reduce, simplify_eq_reduce]
  · intro n m
    rw [simplify_eq_reduce, simplify_eq_reduce, reduce_reduce]
  · intro n s hs
    rw [simplify_eq_reduce] at hs
    have hredex := normal_reduce t s hs
    exact ⟨hredex, fun h => hredex h.redex⟩

/-! ### The value is preserved -/

/-- **Simplification preserves the value** of a tree all of whose subtrees have finite values. -/
theorem evaluate_simplify {lib : Library} (hlib : lib.Regular) (env : Environment (Doubles lib))
    (passes : Int) (t : Tree (Doubles lib)) (h : Tame env t) :
    ∃ x y, t.evaluate env = .ok (.real x) ∧ Kernel.isFinite x ∧
      (t.simplify passes).evaluate env = .ok (.real y) ∧ Kernel.eq y x := by
  have := Doubles.lawful hlib
  obtain ⟨x, hx, ht⟩ := h.value
  obtain ⟨y, hy, hyx⟩ := denotes_reduce h hx ht
  rw [simplify_eq_reduce]
  exact ⟨x, y, ht, hx, hy, hyx⟩

end Term

/-- A function of which only the value at zero is known. -/
def atZero (value x : Float) : Float := if Float.beq x 0.0 then value else 0.0 / 0.0

/-- A library of which only the powers zero and one and the values at zero are known. -/
def Library.least : Library where
  power x y := if Float.beq y 0.0 then 1.0 else if Float.beq y 1.0 then x else 0.0 / 0.0
  exp := atZero 1.0
  log := atZero (-(1.0 / 0.0))
  sin := atZero 0.0
  cos := atZero 1.0
  tan := atZero 0.0
  sinh := atZero 0.0
  cosh := atZero 1.0
  tanh := atZero 0.0
  atan := atZero 0.0

namespace Doubles

open Double

/-- What the library answers where it knows nothing. -/
def unknown : Doubles .least := (0.0 / 0.0 : Float)

theorem power_least (x y : Doubles .least) : Kernel.power x y =
    if Kernel.eq y 0 then 1 else if Kernel.eq y 1 then x else unknown := rfl

theorem onScalar_congr {f : Func}
    (hf : f ∈ [Func.exp, .log, .sin, .cos, .tan, .sinh, .cosh, .tanh]) {x x' : Doubles .least}
    (hx : Kernel.eq x x') : f.onScalar x' = f.onScalar x := by
  obtain ⟨v, hv⟩ : ∃ v, ∀ y : Doubles .least,
      f.onScalar y = if Kernel.eq y 0 then v else unknown := by
    cases f with
    | abs => exact absurd hf (by decide)
    | step => exact absurd hf (by decide)
    | _ => exact ⟨_, fun _ => rfl⟩
  rw [hv, hv, eq_congr hx]

theorem eq_zero_zero : Kernel.eq (0 : Doubles .least) 0 := by decide +kernel

theorem eq_one_zero : ¬ Kernel.eq (1 : Doubles .least) 0 := by decide +kernel

theorem eq_one_one : Kernel.eq (1 : Doubles .least) 1 := by decide +kernel

theorem regular_least : Library.least.Regular where
  power_zero x hx := by
    rw [power_least, if_pos eq_zero_zero]
    exact eq_one_one
  power_one x hx := by
    rw [power_least, if_neg eq_one_zero, if_pos eq_one_one]
    exact eq_iff.2 (agree_self hx)
  power_congr x x' y y' hx hy h := by
    have hself : Kernel.eq (Kernel.power x y) (Kernel.power x y) := eq_iff.2 (agree_self h)
    rw [power_least x', eq_congr hy, eq_congr hy]
    rw [power_least x y] at hself ⊢
    split_ifs at hself ⊢
    · exact hself
    · exact eq_iff.2 (eq_iff.1 hx).symm
    · exact hself
  func_congr f hf x x' hx h := by
    rw [onScalar_congr hf hx]
    exact eq_iff.2 (agree_self h)

end Doubles

namespace Term

/-- The formula `0 - x ^ 1 + sin(0 * x)`. -/
def dampedSample : Tree (Doubles .least) :=
  binary .plus (binary .minus (constant 0) (binary .power (var "x") (constant 1)))
    (unary .sin (binary .times (constant 0) (var "x")))

/-- A value for the variable of the sample. -/
def sampleEnvironment : Environment (Doubles .least) := [("x", .real (2.5 : Float))]

theorem evaluate_dampedSample : Library.least.Regular ∧ Tame sampleEnvironment dampedSample ∧
    ∃ x y, dampedSample.evaluate sampleEnvironment = .ok (.real x) ∧ Kernel.isFinite x ∧
      (dampedSample.simplify 1).evaluate sampleEnvironment = .ok (.real y) ∧ Kernel.eq y x := by
  have htame : Tame sampleEnvironment dampedSample := by decide +kernel
  exact ⟨Doubles.regular_least, htame,
    evaluate_simplify Doubles.regular_least sampleEnvironment 1 dampedSample htame⟩

end Term

end Formula
