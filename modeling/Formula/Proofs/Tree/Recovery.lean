import Formula.Proofs.Tree.Alike
import Formula.Proofs.Tree.Doubles
import Formula.Proofs.Tree.Reached

/-!
Simplification survives a trip through text.  The tree that is read from the text of another differs
from it where a constant is negative, which is read as a difference from zero, and where a zero has
a minus.  A pass folds every such difference back before it looks at what is around it
(`alike_reduce_respelt`), and is blind to the signs of zeros.

Main statement: a tree whose constants can be said is simplified to the same tree before and after
it is printed and read, and a simplified tree that comes from a formula is recovered
(`simplify_toInfix`).
-/

namespace Formula.Term

open Double

variable {lib : Library}

/-- The tree that the text of a tree is read as. -/
def respelt (t : Tree (Doubles lib)) : Tree (Doubles lib) :=
  (unsigned t).mapConstants dropZeroSign

theorem exists_respelt (t : Tree (Doubles lib)) (h : t.hasNames = true) :
    ∃ sequence, parse t.toInfix = .ok sequence ∧ ofPostfix sequence = .ok t.respelt := by
  obtain ⟨sequence, hparse, hbuild, -⟩ := ofPostfix_of_renders (renders_toInfix t h)
  exact ⟨sequence, hparse, hbuild⟩

/-! ### Constants -/

/-- A constant below zero is read as a difference from zero. -/
theorem unsignedConstant_of_isNegative {c : Float} (h : IsNegative (view c)) :
    (unsignedConstant c).mapConstants dropZeroSign =
      binary .minus (constant 0.0) (constant c.abs) := by
  have hnan : ¬ c.isNaN = true := by
    rw [isNaN_iff]
    intro hview
    rw [hview] at h
    exact h
  have hzero : dropZeroSign 0.0 = 0.0 := dropZeroSign_of_ne nofun
  have habs : dropZeroSign c.abs = c.abs := dropZeroSign_of_ne (nonNegative_abs h).ne_negativeZero
  rw [unsignedConstant, if_neg hnan, if_pos (lt_zero_iff.2 h)]
  simp only [mapConstants, hzero, habs]

/-- Every other number is read as itself, but for the sign of a zero. -/
theorem unsignedConstant_of_not_isNegative {c : Float} (hnan : view c ≠ .notANumber)
    (h : ¬ IsNegative (view c)) :
    (unsignedConstant c).mapConstants dropZeroSign = constant (dropZeroSign c) := by
  rw [unsignedConstant, if_neg (mt isNaN_iff.1 hnan), if_neg (mt lt_zero_iff.1 h), mapConstants]

theorem eq_dropZeroSign {c : Float} (hnan : view c ≠ .notANumber) :
    Kernel.eq (dropZeroSign c) c := by
  rw [dropZeroSign, eq_iff]
  split
  · rename_i hzero
    exact .inr ⟨trivial, beq_zero_iff.1 hzero⟩
  · exact .inl ⟨rfl, hnan⟩

variable {c : Doubles lib}

theorem isFinite_of_isNegative (hc : c.Expressible) (h : IsNegative c.view) :
    Kernel.isFinite c := by
  rw [Doubles.isFinite_iff]
  cases hview : c.view with
  | infinity s =>
    rw [hview] at h
    obtain rfl : s = .negative := h
    exact absurd hview hc.2
  | notANumber => exact absurd hview hc.1
  | _ => rfl

/-- The difference from zero that a constant below zero is read as is folded back. -/
theorem reduce_zero_sub_abs (hc : c.Expressible) (h : IsNegative c.view) :
    (binary .minus (constant 0) (constant (Kernel.abs c))).reduce = constant c := by
  have hdifference : (0 : Doubles lib) - Kernel.abs c = c := zero_sub_abs h
  have hfold : Constant.foldOperator .minus 0 (Kernel.abs c) = some c := by
    rw [foldOperator_eq, if_neg (by simp), Operator.onScalars, hdifference,
      if_pos (isFinite_of_isNegative hc h)]
  simp only [reduce, reduceBinary, foldOperator?, hfold]

theorem respelt_of_isNegative (h : IsNegative c.view) :
    respelt (constant c) = binary .minus (constant 0) (constant (Kernel.abs c)) :=
  unsignedConstant_of_isNegative h

theorem respelt_of_not_isNegative (hc : c.Expressible) (h : ¬ IsNegative c.view) :
    respelt (constant c) = constant (dropZeroSign c) :=
  unsignedConstant_of_not_isNegative hc.1 h

/-- A constant is simplified to itself after it is read, but for the sign of a zero. -/
theorem alike_respelt_constant (hc : c.Expressible) :
    Alike (respelt (constant c)).reduce (constant c) := by
  by_cases h : IsNegative c.view
  · rw [respelt_of_isNegative h, reduce_zero_sub_abs hc h]
    exact .constant (Doubles.eq_iff.2 (.inl ⟨rfl, hc.1⟩))
  · rw [respelt_of_not_isNegative hc h]
    exact .constant (eq_dropZeroSign hc.1)

/-! ### Trees -/

theorem alike_reduce_respelt (hlib : lib.Congruent) {t : Tree (Doubles lib)}
    (h : t.AllConstants Doubles.Expressible) : Alike t.respelt.reduce t.reduce := by
  induction t with
  | constant c => exact alike_respelt_constant (allConstants_constant.1 h)
  | var x => exact .var x
  | binary op left right ihl ihr =>
    obtain ⟨hl, hr⟩ := allConstants_binary.1 h
    exact reduceBinary_congr hlib op (ihl hl) (ihr hr)
  | unary f arg ih => exact reduceUnary_congr hlib f (ih (allConstants_unary.1 h))

/-! ### Recovery -/

/-- **Simplifying survives a trip through text.**  Over a library that does not tell zeros apart, a
tree whose constants can be said is simplified to the same tree before and after it is printed and
read; and of every tree that a formula is made into, the simplified tree is recovered from its text
by simplifying. -/
theorem simplify_toInfix (hlib : lib.Congruent) :
    (∀ t : Tree (Doubles lib), t.hasNames = true → t.AllConstants Doubles.Expressible →
      ∃ sequence t', parse t.toInfix = .ok sequence ∧ ofPostfix sequence = .ok t' ∧
        ∀ n m, t'.simplify n == t.simplify m) ∧
    ∀ t : Tree (Doubles lib), Reached t → ∀ passes,
      ∃ sequence t', parse (t.simplify passes).toInfix = .ok sequence ∧
        ofPostfix sequence = .ok t' ∧ ∀ n, t'.simplify n == t.simplify passes := by
  have hprinted : ∀ t : Tree (Doubles lib), t.hasNames = true →
      t.AllConstants Doubles.Expressible → ∃ sequence t', parse t.toInfix = .ok sequence ∧
        ofPostfix sequence = .ok t' ∧ ∀ n m, t'.simplify n == t.simplify m := by
    intro t hnames hconstants
    obtain ⟨sequence, hparse, hbuild⟩ := exists_respelt t hnames
    refine ⟨sequence, t.respelt, hparse, hbuild, fun n m => ?_⟩
    rw [simplify_eq_reduce, simplify_eq_reduce]
    exact (alike_reduce_respelt hlib hconstants).beq
  refine ⟨hprinted, fun t h passes => ?_⟩
  have hsimple : Reached (t.simplify passes) := .simplify passes h
  obtain ⟨sequence, t', hparse, hbuild, heq⟩ :=
    hprinted _ hsimple.hasNames hsimple.expressible
  refine ⟨sequence, t', hparse, hbuild, fun n => ?_⟩
  -- a simplified tree is simple
  have hagain : (t.simplify passes).simplify passes = t.simplify passes := by
    rw [simplify_eq_reduce, simplify_eq_reduce, reduce_reduce]
  have hequal := heq n passes
  rwa [hagain] at hequal

/-- The tree of `x^-2.5 + (-0.0 - y)`, whose text shows neither the constant nor the zero as they
are. -/
def negativeSample : Tree (Doubles .least) :=
  binary .plus (binary .power (var "x") (constant (-2.5 : Float)))
    (binary .minus (constant (-0.0 : Float)) (var "y"))

theorem simplify_negativeSample : Library.least.Congruent ∧ negativeSample.hasNames = true ∧
    negativeSample.AllConstants Doubles.Expressible ∧
    (∃ sequence t', parse negativeSample.toInfix = .ok sequence ∧ ofPostfix sequence = .ok t' ∧
      t'.simplify 1 == negativeSample.simplify 1) ∧
    Reached negativeSample.respelt ∧
    ∃ sequence t', parse (negativeSample.respelt.simplify 1).toInfix = .ok sequence ∧
      ofPostfix sequence = .ok t' ∧ t'.simplify 1 == negativeSample.respelt.simplify 1 := by
  have hlib := Doubles.regular_least.congruent
  have hnames : negativeSample.hasNames = true := by decide
  have hconstants : negativeSample.AllConstants Doubles.Expressible := by
    refine allConstants_binary.2 ⟨allConstants_binary.2 ⟨allConstants_var _, ?_⟩,
      allConstants_binary.2 ⟨?_, allConstants_var _⟩⟩
    · exact allConstants_constant.2 (Doubles.expressible_of_isFinite (by decide +kernel))
    · exact allConstants_constant.2 (Doubles.expressible_of_isFinite (by decide +kernel))
  obtain ⟨_, hparse, hbuild⟩ := exists_respelt negativeSample hnames
  have hreached : Reached negativeSample.respelt := .parsed hparse hbuild
  obtain ⟨sequence, t', hread, ht', heq⟩ := (simplify_toInfix hlib).1 _ hnames hconstants
  obtain ⟨again, t'', hagain, ht'', heq'⟩ := (simplify_toInfix hlib).2 _ hreached 1
  exact ⟨hlib, hnames, hconstants, ⟨sequence, t', hread, ht', heq 1 1⟩, hreached,
    again, t'', hagain, ht'', heq' 1⟩

end Formula.Term
