import Formula.Proofs.Tree.Alike
import Formula.Proofs.Tree.Gaps
import Formula.Proofs.Tree.Reached

/-!
Trees that differ in the signs of zeros only can stand in for each other.  They have the same size,
depth and variables, and simplifying keeps them alike.  So does differentiation: every rule that
finds a derivative of one of them finds one of the other (`Derives.alike`), and where one of them
has a gap, so has the other, with the same symbol (`Alike.findSome?_eq`).

Main statement: alike trees have alike derivatives, or no derivatives for the same symbol
(`Alike.differentiate`).
-/

namespace Formula.Term

variable {lib : Library} {t u r left right arg : Tree (Doubles lib)} {c c' : Doubles lib}
  {op : Operator} {f : Func} {x : String}

/-! ### What alike trees have in common -/

namespace Alike

theorem size_eq (h : Alike t u) : t.size = u.size := by
  induction h with
  | constant _ => rfl
  | var _ => rfl
  | binary op _ _ ihl ihr => rw [size, size, ihl, ihr]
  | unary f _ ih => rw [size, size, ih]

theorem depth_eq (h : Alike t u) : t.depth = u.depth := by
  induction h with
  | constant _ => rfl
  | var _ => rfl
  | binary op _ _ ihl ihr => rw [depth, depth, ihl, ihr]
  | unary f _ ih => rw [depth, depth, ih]

theorem occurs_iff (h : Alike t u) : Occurs x t ↔ Occurs x u := by
  induction h with
  | constant _ => simp
  | var _ => exact Iff.rfl
  | binary op _ _ ihl ihr => rw [occurs_binary, occurs_binary, ihl, ihr]
  | unary f _ ih => rw [occurs_unary, occurs_unary, ih]

theorem contains_eq (h : Alike t u) : t.contains x = u.contains x := by
  induction h with
  | constant _ => rfl
  | var _ => rfl
  | binary op _ _ ihl ihr => rw [contains, contains, ihl, ihr]
  | unary f _ ih => rw [contains, contains, ih]

theorem exists_constant (h : Alike (.constant c) u) : ∃ d, u = .constant d ∧ Kernel.eq c d := by
  cases h with
  | constant h => exact ⟨_, rfl, h⟩

/-- An operation with a variable is alike to one with the same variable and alike operands. -/
theorem exists_operands (h : Alike (.binary op left right) u)
    (hx : (Term.binary op left right).contains x) : ∃ left' right', u = .binary op left' right' ∧
      (Term.binary op left' right').contains x ∧ Alike left left' ∧ Alike right right' := by
  rw [h.contains_eq] at hx
  cases h with
  | binary _ hl hr => exact ⟨_, _, rfl, hx, hl, hr⟩

theorem exists_argument (h : Alike (.unary f arg) u) (hx : (Term.unary f arg).contains x) :
    ∃ arg', u = .unary f arg' ∧ (Term.unary f arg').contains x ∧ Alike arg arg' := by
  rw [h.contains_eq] at hx
  cases h with
  | unary _ h => exact ⟨_, rfl, hx, h⟩

theorem simplify (hlib : lib.Congruent) (h : Alike t u) (n m : Int) :
    Alike (t.simplify n) (u.simplify m) := by
  rw [simplify_eq_reduce, simplify_eq_reduce]
  exact h.reduce hlib

end Alike

/-! ### Derivatives -/

theorem eq_self_of_isFinite (h : Kernel.isFinite c) : Kernel.eq c c :=
  Doubles.eq_iff.2 (Double.agree_self (Doubles.isFinite_iff.1 h))

/-- The numbers that differentiation writes are alike. -/
theorem alike_integer {n : Int} (hn : n ∈ [-2, -1, 0, 1, 2]) :
    Alike (number n : Tree (Doubles lib)) (number n) :=
  .constant (eq_self_of_isFinite (Doubles.isFinite_ofInt n hn))

theorem eq_pred (hlib : lib.Congruent) (h : Kernel.eq c c') (hc : Kernel.isInteger c) :
    Kernel.eq (Constant.pred c) (Constant.pred c') := by
  have hone : Kernel.eq (1 : Doubles lib) 1 := by
    rw [Doubles.eq_iff, Doubles.view_one]
    exact Double.agree_self rfl
  have hfinite : Kernel.isFinite (Operator.onScalars .minus c 1) :=
    Doubles.isFinite_pred (Doubles.isFinite_of_isInteger hc)
  exact Doubles.eq_iff.2 (Doubles.eq_iff.1 (Doubles.operator_congr hlib .minus h hone hfinite)).symm

theorem Alike.rule {rule : Tree (Doubles lib) → Tree (Doubles lib)}
    (hrule : f.derivative? = some rule) (h : Alike t u) : Alike (rule t) (rule u) := by
  have hone : Alike (number 1 : Tree (Doubles lib)) (number 1) := alike_integer (by decide)
  cases f <;> cases hrule
  case sin => exact .unary .cos h
  case cos => exact .binary .times (alike_integer (by decide)) (.unary .sin h)
  case exp => exact .unary .exp h
  case log => exact .binary .divide hone h
  case tan =>
    exact .binary .plus hone (.binary .power (.unary .tan h) (alike_integer (by decide)))
  case step => exact alike_integer (by decide)

/-- **A rule that finds a derivative finds one of every tree alike.** -/
theorem Derives.alike (hlib : lib.Congruent) {n m : Int} (hr : Derives x n t r)
    (h : Alike (t.simplify n) (u.simplify m)) : ∃ r', Derives x m u r' ∧ Alike r r' := by
  induction hr generalizing u with
  | free ht => exact ⟨_, .free (h.contains_eq ▸ ht), alike_integer (by decide)⟩
  | self ht =>
    rw [ht] at h
    generalize hs : u.simplify m = s at h
    cases h
    exact ⟨_, .self hs, alike_integer (by decide)⟩
  | sum hop ht hx _ _ ihu ihv =>
    obtain ⟨v, w, hs, hx', hv, hw⟩ := (ht ▸ h).exists_operands hx
    obtain ⟨dv, hdv, hv'⟩ := ihu (hv.simplify hlib _ m)
    obtain ⟨dw, hdw, hw'⟩ := ihv (hw.simplify hlib _ m)
    exact ⟨_, .sum hop hs hx' hdv hdw, (Alike.binary _ hv' hw').simplify hlib _ m⟩
  | product ht hx _ _ ihu ihv =>
    obtain ⟨v, w, hs, hx', hv, hw⟩ := (ht ▸ h).exists_operands hx
    obtain ⟨dv, hdv, hv'⟩ := ihu (hv.simplify hlib _ m)
    obtain ⟨dw, hdw, hw'⟩ := ihv (hw.simplify hlib _ m)
    refine ⟨_, .product hs hx' hdv hdw, Alike.simplify hlib ?_ _ m⟩
    exact .binary _ (.binary _ hv' hw) (.binary _ hv hw')
  | quotient ht hx _ _ ihu ihv =>
    obtain ⟨v, w, hs, hx', hv, hw⟩ := (ht ▸ h).exists_operands hx
    obtain ⟨dv, hdv, hv'⟩ := ihu (hv.simplify hlib _ m)
    obtain ⟨dw, hdw, hw'⟩ := ihv (hw.simplify hlib _ m)
    refine ⟨_, .quotient hs hx' hdv hdw, Alike.simplify hlib ?_ _ m⟩
    exact .binary _ (.binary _ hv' hw)
      (.binary _ (.binary _ hw (alike_integer (by decide))) (.binary _ hv hw'))
  | power hn ht hx _ ihu =>
    obtain ⟨v, w, hs, hx', hv, hw⟩ := (ht ▸ h).exists_operands hx
    obtain ⟨d, rfl, hd⟩ := hw.exists_constant
    obtain ⟨dv, hdv, hv'⟩ := ihu (hv.simplify hlib _ m)
    have hinteger : Constant.isInteger d = true := (Doubles.isInteger_congr hd).trans hn
    refine ⟨_, .power hinteger hs hx' hdv, Alike.simplify hlib ?_ _ m⟩
    exact .binary _ (.binary _ hw (.binary _ hv (.constant (eq_pred hlib hd hn)))) hv'
  | chain hrule ht hx _ ihu =>
    obtain ⟨v, hs, hx', hv⟩ := (ht ▸ h).exists_argument hx
    obtain ⟨dv, hdv, hv'⟩ := ihu (hv.simplify hlib _ m)
    exact ⟨_, .chain hrule hs hx' hdv,
      (Alike.binary _ (hv.rule hrule) hv').simplify hlib _ m⟩

/-! ### Gaps -/

theorem Alike.isNone_integerConstant?_eq (h : Alike t u) :
    t.integerConstant?.isNone = u.integerConstant?.isNone := by
  cases h with
  | @constant c d h =>
    have hinteger : Constant.isInteger d = Constant.isInteger c := Doubles.isInteger_congr h
    rw [integerConstant?, integerConstant?, hinteger]
    split <;> rfl
  | _ => rfl

/-- Alike trees have gaps at their roots together, for the same symbol. -/
theorem Alike.gapAt?_eq (h : Alike t u) : (gapAt? x t).map (·.toFault.symbol?) =
    (gapAt? x u).map (·.toFault.symbol?) := by
  by_cases hx : t.contains x
  · have hx' : u.contains x := h.contains_eq ▸ hx
    cases h with
    | constant _ => cases hx
    | var _ => rfl
    | binary op hl hr =>
      by_cases hop : op = .power
      · subst hop
        rw [gapAt?_power hx, gapAt?_power hx', hr.isNone_integerConstant?_eq]
        split <;> rfl
      · rw [gapAt?_of_not_power hx hop, gapAt?_of_not_power hx' hop]
    | unary f _ => rw [gapAt?_unary hx, gapAt?_unary hx']
  · have hx' : ¬ u.contains x = true := h.contains_eq ▸ hx
    rw [gapAt?_of_not_contains (by simpa using hx), gapAt?_of_not_contains (by simpa using hx')]

/-- The first gaps of alike trees have the same symbol. -/
theorem Alike.findSome?_eq (h : Alike t u) :
    (t.depthFirst.findSome? (gapAt? x)).map (·.toFault.symbol?) =
      (u.depthFirst.findSome? (gapAt? x)).map (·.toFault.symbol?) := by
  induction h with
  | constant _ => rfl
  | var _ => rfl
  | binary op hl hr ihl ihr =>
    have hroot := (Alike.binary op hl hr).gapAt?_eq (x := x)
    rw [findSome?_binary, findSome?_binary, Option.map_or, Option.map_or, Option.map_or,
      Option.map_or, hroot, ihl, ihr]
  | unary f harg ih =>
    have hroot := (Alike.unary f harg).gapAt?_eq (x := x)
    rw [findSome?_unary, findSome?_unary, Option.map_or, Option.map_or, hroot, ih]

/-- **Alike trees have alike derivatives**, or they have none for the same symbol. -/
theorem Alike.differentiate (hlib : lib.Congruent) (h : Alike t u) (x : String) (n m : Int) :
    (∃ r r', t.differentiate x n = .ok r ∧ u.differentiate x m = .ok r' ∧ Alike r r') ∨
      ∃ gap gap', t.differentiate x n = .error gap ∧ u.differentiate x m = .error gap' ∧
        gap.toFault.symbol? = gap'.toFault.symbol? := by
  have hsimple := h.simplify hlib n m
  cases ht : t.differentiate x n with
  | ok r =>
    obtain ⟨r', hr', hrr'⟩ := (derives_of_differentiate ht).alike hlib hsimple
    exact .inl ⟨r, r', rfl, differentiate_of_derives hr', hrr'⟩
  | error gap =>
    have hfirst := hsimple.findSome?_eq (x := x)
    rw [← failure?_differentiate, ← failure?_differentiate, ht] at hfirst
    obtain ⟨gap', hgap', hsymbol⟩ := Option.map_eq_some_iff.1 hfirst.symm
    exact .inr ⟨gap, gap', rfl, failure?_eq_some.1 hgap', hsymbol.symm⟩

end Formula.Term
