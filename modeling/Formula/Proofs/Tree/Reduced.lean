import Formula.Proofs.Tree.Gaps
import Formula.Proofs.Tree.Traversal

/-!
Derivatives are simple, and simplifying first does not change them.  Differentiation sees nothing of
a tree but its simplified form, which one pass makes, however many are asked for.  So trees that one
pass makes the same have the same derivatives by the same rules (`Derives.congr`), or the same gap.

Main statement: a tree and its simplified tree have equal derivatives or fail for the same symbol,
and a derivative is simple and has only variables of the simplified tree (`differentiate_simplify`).
-/

namespace Formula.Term

/-! ### Trees with one simplified form -/

section Lawful

variable {κ : Type} [Constant κ] [Constant.Lawful κ] {x : String} {n m : Int} {t u r : Tree κ}

/-- The number of passes does not matter. -/
theorem simplify_congr (h : t.reduce = u.reduce) : t.simplify n = u.simplify m := by
  rw [simplify_eq_reduce, simplify_eq_reduce, h]

/-- **Trees that one pass makes the same have the same derivatives**, by the same rules. -/
theorem Derives.congr (hr : Derives x n t r) (h : t.reduce = u.reduce) : Derives x m u r := by
  have hroot {t u : Tree κ} (h : t.reduce = u.reduce) : u.simplify m = t.simplify n :=
    simplify_congr h.symm
  have hresult (s : Tree κ) : s.simplify n = s.simplify m := simplify_congr rfl
  -- only the roots differ: the operands come from the simplified form
  induction hr generalizing u with
  | free ht => exact .free (hroot h ▸ ht)
  | self ht => exact .self ((hroot h).trans ht)
  | sum hop ht hx _ _ ihu ihv =>
    rw [hresult]
    exact .sum hop ((hroot h).trans ht) hx (ihu rfl) (ihv rfl)
  | product ht hx _ _ ihu ihv =>
    rw [hresult]
    exact .product ((hroot h).trans ht) hx (ihu rfl) (ihv rfl)
  | quotient ht hx _ _ ihu ihv =>
    rw [hresult]
    exact .quotient ((hroot h).trans ht) hx (ihu rfl) (ihv rfl)
  | power hn ht hx _ ihu =>
    rw [hresult]
    exact .power hn ((hroot h).trans ht) hx (ihu rfl)
  | chain hrule ht hx _ ihu =>
    rw [hresult]
    exact .chain hrule ((hroot h).trans ht) hx (ihu rfl)

/-- **A derivative is simple**, as every rule simplifies what it has put together. -/
theorem Derives.normal (hr : Derives x n t r) : Normal r := by
  have hsimplified (s : Tree κ) : Normal (s.simplify n) := by
    rw [simplify_eq_reduce]
    exact normal_reduce s
  cases hr with
  | free _ => exact normal_number 0
  | self _ => exact normal_number 1
  | _ => exact hsimplified _

theorem differentiate_congr (h : t.reduce = u.reduce) :
    t.differentiate x n = u.differentiate x m := by
  cases hu : u.differentiate x m with
  | ok r =>
    have hderives := differentiate_eq_ok_iff.1 hu
    exact differentiate_eq_ok_iff.2 (hderives.congr h.symm)
  | error gap =>
    rw [← failure?_eq_some, failure?_differentiate, simplify_congr h (m := m),
      ← failure?_differentiate, failure?_eq_some, hu]

end Lawful

/-! ### Trees over the doubles -/

/-- **Derivatives come back simple and do not depend on how simple the tree was.** -/
theorem differentiate_simplify {lib : Library} (t : Tree (Marked (Doubles lib))) (x : String)
    (n m k : Int) :
    (∃ r r', t.differentiate x n = .ok r ∧ (t.simplify k).differentiate x m = .ok r' ∧ r == r' ∧
      (∀ j, r.simplify j == r) ∧ ∀ y ∈ r.variableNames, y ∈ (t.simplify k).variableNames) ∨
    ∃ gap gap', t.differentiate x n = .error gap ∧
      (t.simplify k).differentiate x m = .error gap' ∧
      gap.toFault.kind = .derivation ∧ gap'.toFault.kind = .derivation ∧
      gap.toFault.symbol? = gap'.toFault.symbol? := by
  have hsame : (t.simplify k).differentiate x m = t.differentiate x n := by
    refine differentiate_congr ?_
    rw [simplify_eq_reduce, reduce_reduce]
  rw [hsame]
  cases hr : t.differentiate x n with
  | error gap =>
    have hkind : gap.toFault.kind = .derivation := by cases gap <;> rfl
    exact .inr ⟨gap, gap, rfl, rfl, hkind, hkind, rfl⟩
  | ok r =>
    have hderives := differentiate_eq_ok_iff.1 hr
    refine .inl ⟨r, r, rfl, rfl, beq_self r, fun j => ?_, fun y hy => ?_⟩
    · rw [simplify_eq_reduce, reduce_of_normal hderives.normal]
      exact beq_self r
    · rw [simplify_congr rfl (m := n), mem_variableNames]
      exact hderives.occurs (mem_variableNames.1 hy)

end Formula.Term
