import Formula.Proofs.Result
import Formula.Tree.Derivative

/-!
Differentiation rule by rule.  Where a tree has a derivative, the relation `Derives` says by which
rule it was found, from the simplified tree and the derivatives of its operands, so that a property
of derivatives is proved by one case for each rule.  The rules say all that differentiation does
(`differentiate_eq_ok_iff`).
-/

namespace Formula.Term

variable {κ : Type} [Constant κ] {x : String} {passes : Int} {t r : Tree κ}

/-- The derivatives of trees by a variable. -/
inductive Derives (x : String) (passes : Int) : Tree κ → Tree κ → Prop
  /-- The variable does not occur. -/
  | free {t : Tree κ} (h : (t.simplify passes).contains x = false) : Derives x passes t (number 0)
  /-- The tree is the variable. -/
  | self {t : Tree κ} (h : t.simplify passes = var x) : Derives x passes t (number 1)
  /-- A sum or a difference. -/
  | sum {t u v du dv : Tree κ} {op : Operator} (hop : op = .plus ∨ op = .minus)
    (h : t.simplify passes = binary op u v) (hx : (binary op u v).contains x = true)
    (hu : Derives x passes u du) (hv : Derives x passes v dv) :
    Derives x passes t ((binary op du dv).simplify passes)
  | product {t u v du dv : Tree κ}
    (h : t.simplify passes = binary .times u v) (hx : (binary .times u v).contains x = true)
    (hu : Derives x passes u du) (hv : Derives x passes v dv) :
    Derives x passes t ((binary .plus (binary .times du v) (binary .times u dv)).simplify passes)
  | quotient {t u v du dv : Tree κ}
    (h : t.simplify passes = binary .divide u v) (hx : (binary .divide u v).contains x = true)
    (hu : Derives x passes u du) (hv : Derives x passes v dv) :
    Derives x passes t ((binary .minus (binary .divide du v)
      (binary .times (binary .power v (number (-2))) (binary .times u dv))).simplify passes)
  /-- A power with an integer for its exponent. -/
  | power {t u du : Tree κ} {n : κ} (hn : Constant.isInteger n = true)
    (h : t.simplify passes = binary .power u (constant n))
    (hx : (binary .power u (constant n)).contains x = true) (hu : Derives x passes u du) :
    Derives x passes t ((binary .times (binary .times (constant n)
      (binary .power u (constant (Constant.pred n)))) du).simplify passes)
  /-- A function that has a rule. -/
  | chain {t u du : Tree κ} {f : Func} {rule : Tree κ → Tree κ} (hrule : f.derivative? = some rule)
    (h : t.simplify passes = unary f u) (hx : (unary f u).contains x = true)
    (hu : Derives x passes u du) :
    Derives x passes t ((binary .times (rule u) du).simplify passes)

theorem eq_constant_of_integerConstant? {v : Tree κ} {n : κ} (h : v.integerConstant? = some n) :
    v = constant n ∧ Constant.isInteger n = true := by
  cases v with
  | constant c =>
    simp only [integerConstant?] at h
    split at h
    · rename_i hc
      cases h
      exact ⟨rfl, hc⟩
    · cases h
  | _ => cases h

/-- **A derivative is found by the rules.** -/
theorem derives_of_differentiate (h : t.differentiate x passes = .ok r) : Derives x passes t r := by
  fun_induction differentiate x passes t generalizing r with
  | case1 t c ht =>
    cases h
    exact .free (by rw [ht]; rfl)
  | case2 t y ht =>
    cases h
    split
    · rename_i hy
      exact .self (by rw [ht, hy])
    · rename_i hy
      exact .free (by rw [ht]; exact beq_false_of_ne hy)
  | case3 t u v ht _ _ hx ihu ihv =>
    simp only [bind_eq_ok] at h
    obtain ⟨du, hu, dv, hv, h⟩ := h
    cases h
    exact .sum (.inl rfl) ht hx (ihu hu) (ihv hv)
  | case4 t u v ht _ _ hx ihu ihv =>
    simp only [bind_eq_ok] at h
    obtain ⟨du, hu, dv, hv, h⟩ := h
    cases h
    exact .sum (.inr rfl) ht hx (ihu hu) (ihv hv)
  | case5 t u v ht _ _ hx ihu ihv =>
    simp only [bind_eq_ok] at h
    obtain ⟨du, hu, dv, hv, h⟩ := h
    cases h
    exact .product ht hx (ihu hu) (ihv hv)
  | case6 t u v ht hn _ _ hx => cases h
  | case7 t u v ht n hn _ _ hx ihu =>
    obtain ⟨du, hu, h⟩ := bind_eq_ok.1 h
    cases h
    obtain ⟨rfl, hinteger⟩ := eq_constant_of_integerConstant? hn
    exact .power hinteger ht hx (ihu hu)
  | case8 t u v ht _ _ hx ihu ihv =>
    simp only [bind_eq_ok] at h
    obtain ⟨du, hu, dv, hv, h⟩ := h
    cases h
    exact .quotient ht hx (ihu hu) (ihv hv)
  | case9 t op u v ht _ hx =>
    cases h
    exact .free (by rw [ht]; simpa using hx)
  | case10 t f u ht _ hx hrule => cases h
  | case11 t f u ht _ hx rule hrule ihu =>
    obtain ⟨du, hu, h⟩ := bind_eq_ok.1 h
    cases h
    exact .chain hrule ht hx (ihu hu)
  | case12 t f u ht _ hx =>
    cases h
    exact .free (by rw [ht]; simpa using hx)

/-- The rules find the derivative that differentiation computes. -/
theorem differentiate_of_derives (h : Derives x passes t r) : t.differentiate x passes = .ok r := by
  induction h with
  | free h =>
    rw [differentiate]
    split
    · rfl
    · rename_i y hs
      rw [hs] at h
      rw [if_neg (ne_of_beq_false h)]
    · rename_i hs
      rw [hs] at h
      exact if_neg (Bool.eq_false_iff.1 h)
    · rename_i hs
      rw [hs] at h
      exact if_neg (Bool.eq_false_iff.1 h)
  | self h =>
    rw [differentiate]
    split <;> rename_i hs <;> cases h.symm.trans hs
    rw [if_pos rfl]
  | sum hop h hx hu hv ihu ihv =>
    rw [differentiate]
    split <;> rename_i hs <;> cases h.symm.trans hs
    rw [if_pos hx]
    rcases hop with rfl | rfl
    · simp only [ihu, ihv, ok_bind, pure_eq_ok]
    · simp only [ihu, ihv, ok_bind, pure_eq_ok]
  | product h hx hu hv ihu ihv =>
    rw [differentiate]
    split <;> rename_i hs <;> cases h.symm.trans hs
    rw [if_pos hx]
    simp only [ihu, ihv, ok_bind, pure_eq_ok]
  | quotient h hx hu hv ihu ihv =>
    rw [differentiate]
    split <;> rename_i hs <;> cases h.symm.trans hs
    rw [if_pos hx]
    simp only [ihu, ihv, ok_bind, pure_eq_ok]
  | power hn h hx hu ihu =>
    rw [differentiate]
    split <;> rename_i hs <;> cases h.symm.trans hs
    rw [if_pos hx]
    simp only [integerConstant?, hn, if_true, ihu, ok_bind, pure_eq_ok]
  | chain hrule h hx hu ihu =>
    rw [differentiate]
    split <;> rename_i hs <;> cases h.symm.trans hs
    rw [if_pos hx]
    simp only [hrule, ihu, ok_bind, pure_eq_ok]

theorem differentiate_eq_ok_iff : t.differentiate x passes = .ok r ↔ Derives x passes t r :=
  ⟨derives_of_differentiate, differentiate_of_derives⟩

end Formula.Term
