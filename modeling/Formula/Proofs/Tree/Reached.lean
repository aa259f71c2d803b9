import Formula.Proofs.Number.Rational
import Formula.Proofs.Number.Rounding
import Formula.Proofs.Tree.Constants
import Formula.Proofs.Tree.RoundTrip
import Formula.Proofs.Tree.Value

/-!
The trees that formulas are made into by simplification and differentiation.  All of them have names
for their variables (`Reached.hasNames`), so that they can be printed and read again, and none has a
constant that is undefined or minus infinity (`Reached.expressible`).
-/

open Float.Model.UnpackedFloat

namespace Formula

/-! ### Expressible constants -/

namespace Doubles

open Double

variable {lib : Library} {x : Doubles lib}

/-- A constant that a formula can say: neither undefined nor minus infinity. -/
def Expressible (x : Doubles lib) : Prop :=
  x.view ≠ .notANumber ∧ x.view ≠ .infinity .negative

theorem expressible_of_isFinite (h : Kernel.isFinite x) : Expressible x := by
  rw [isFinite_iff] at h
  constructor
  · intro hview
    rw [hview] at h
    cases h
  · intro hview
    rw [hview] at h
    cases h

/-- Of the infinities a formula can say one. -/
theorem Expressible.eq_infinity (hx : Expressible x) (h : ¬ Kernel.isFinite x = true) :
    x.view = .infinity .positive := by
  rw [isFinite_iff] at h
  cases hview : x.view with
  | notANumber => exact absurd hview hx.1
  | infinity s =>
    have hs : s ≠ .negative := fun hs => hx.2 (by rw [hview, hs])
    rw [eq_positive hs]
  | zero s => exact absurd (by rw [hview]; rfl) h
  | finite s m e hm => exact absurd (by rw [hview]; rfl) h

theorem expressible_ofDecimal (d : Decimal) : @Expressible lib (ofDecimal d) := by
  have hsign : NonNegative (@view lib (ofDecimal d)) := nonNegative_ofDecimal d
  constructor
  · intro hview
    rw [hview] at hsign
    exact hsign
  · intro hview
    rw [hview] at hsign
    cases hsign

/-- A finite number less one is finite. -/
theorem isFinite_pred (h : Kernel.isFinite x) : Kernel.isFinite (x - 1) := by
  rw [isFinite_iff] at h ⊢
  rw [view_sub, view_one]
  exact isFinite_sub_unit (fits_view x) h

theorem isFinite_of_isInteger (h : Kernel.isInteger x) : Kernel.isFinite x := by
  by_contra hfinite
  rw [isFinite_iff] at hfinite
  have hnone : Kernel.integer? x = none := integer?_of_not_isFinite hfinite
  rw [Kernel.isInteger, hnone] at h
  cases h

/-- The integers that simplification and differentiation write are finite doubles. -/
theorem isFinite_ofInt : ∀ n : Int, n ∈ [-2, -1, 0, 1, 2] →
    (Double.ofNumeral (Numeral.ofInt n)).isFinite = true := by
  decide +kernel

/-- Simplification and differentiation write expressible constants only. -/
theorem kept_expressible : Constant.Kept (@Expressible lib) where
  ofInt n hn := expressible_of_isFinite (isFinite_ofInt n hn)
  pred h := expressible_of_isFinite (isFinite_pred (isFinite_of_isInteger h))
  foldOperator h := expressible_of_isFinite (Term.ofNumeric?_eq_some.1 h).2
  foldFunc h := expressible_of_isFinite (Term.ofNumeric?_eq_some.1 h).2

end Doubles

namespace Term

variable {lib : Library}

theorem hereditary_expressible :
    Hereditary fun t => AllConstants (@Doubles.Expressible lib) t where
  number s := allConstants_constant.2 (Doubles.expressible_ofDecimal s.decimal)
  name _ := allConstants_var _
  binary _ _ _ hl hr := allConstants_binary.2 ⟨hl, hr⟩
  unary _ _ h := allConstants_unary.2 h

/-! ### Reached trees -/

theorem hasNames_iff {ω φ κ : Type} {t : Term ω φ κ} :
    t.hasNames = true ↔ ∀ x, Occurs x t → isName x = true := by
  induction t with
  | constant c => simp [hasNames]
  | var y => simp [hasNames]
  | binary op left right ihl ihr =>
    simp only [hasNames, Bool.and_eq_true, ihl, ihr, occurs_binary, or_imp, forall_and]
  | unary f arg ih => simp only [hasNames, ih, occurs_unary]

/-- Names are kept by whatever brings in no variables. -/
theorem hasNames_of_occurs {κ : Type} {t u : Tree κ} (h : ∀ x, Occurs x u → Occurs x t)
    (ht : t.hasNames = true) : u.hasNames = true :=
  hasNames_iff.2 fun x hx => hasNames_iff.1 ht x (h x hx)

/-- The trees over a library that formulas are made into. -/
inductive Reached : Tree (Doubles lib) → Prop
  /-- The tree of a formula. -/
  | parsed {source : String} {sequence : List Token} {t : Tree (Doubles lib)}
    (h : parse source = .ok sequence) (ht : ofPostfix sequence = .ok t) : Reached t
  | simplify {t : Tree (Doubles lib)} (passes : Int) (h : Reached t) : Reached (t.simplify passes)
  | differentiate {t r : Tree (Doubles lib)} {x : String} {passes : Int} (h : Reached t)
    (hr : t.differentiate x passes = .ok r) : Reached r

variable {t : Tree (Doubles lib)}

theorem Reached.hasNames (h : Reached t) : t.hasNames = true := by
  induction h with
  | parsed h ht => exact (hereditary_sayable.of_parse h ht).1
  | simplify passes _ ih => exact hasNames_of_occurs (fun x hx => occurs_of_simplify hx) ih
  | differentiate _ hr ih =>
    have hderives := derives_of_differentiate hr
    exact hasNames_of_occurs (fun x hx => occurs_of_simplify (hderives.occurs hx)) ih

/-- **No reached tree has an undefined constant or minus infinity.** -/
theorem Reached.expressible (h : Reached t) : t.AllConstants Doubles.Expressible := by
  induction h with
  | parsed h ht => exact hereditary_expressible.of_parse h ht
  | simplify passes _ ih => exact ih.simplify Doubles.kept_expressible
  | differentiate _ hr ih =>
    exact (derives_of_differentiate hr).allConstants Doubles.kept_expressible ih

end Term

end Formula
