import Formula.Proofs.Calculus.Formal
import Formula.Proofs.Tree.Derives
import Mathlib.Algebra.Group.Ext
import Mathlib.Tactic.FieldSimp
import Mathlib.Tactic.Ring

/-!
The symbolic derivative is the derivative.  Every rule takes the derivatives of the operands to that
of the whole, and so the derivative that is found for a formula has for its value the derivative of
the value (`value_differentiate`).
-/

namespace Formula

namespace Term

variable {κ : Type} [Constant κ]

/-! ### Exponents -/

/-- No power to the zero is left in a tree by a pass. -/
theorem isNumber_zero_of_reduce {t u v : Tree κ} (h : t.reduce = binary .power u v) :
    v.isNumber 0 = false := by
  induction t generalizing u v with
  | constant c => cases h
  | var y => cases h
  | binary op left right ihl ihr =>
    rw [reduce, reduceBinary] at h
    split at h
    · cases h
    · -- the power is one of the operands, or else it is the operation that no rule applies to
      cases op <;> simp only [dropNeutral] at h <;> split_ifs at h <;>
        first
        | exact ihl h
        | exact ihr h
        | (cases h; done)
        | (cases h; simp_all)
  | unary f arg _ =>
    rw [reduce, reduceUnary] at h
    split at h <;> cases h

/-- A simplified tree comes out of a pass. -/
theorem exists_simplify_eq_reduce (passes : Int) (t : Tree κ) :
    ∃ s : Tree κ, t.simplify passes = s.reduce := by
  obtain ⟨n, hn⟩ : ∃ n, (max 1 passes).toNat = n + 1 := ⟨(max 1 passes).toNat - 1, by omega⟩
  rw [simplify, hn, settle]
  split
  · exact ⟨t, rfl⟩
  · exact settle_induction (P := fun u => ∃ s : Tree κ, u = s.reduce) (fun u _ => ⟨u, rfl⟩) n
      ⟨t, rfl⟩

theorem isNumber_zero_of_simplify {passes : Int} {t u v : Tree κ}
    (h : t.simplify passes = binary .power u v) : v.isNumber 0 = false := by
  obtain ⟨s, hs⟩ := exists_simplify_eq_reduce passes t
  exact isNumber_zero_of_reduce (hs.symm.trans h)

end Term

namespace Calculus

open Term

variable {F : Type} {L : Type*} [Field F] [ExactConstants F] [DecidableEq F] [Field L]
  [Algebra F L] {x : String} (I : Calculus F L x)

/-! ### Formulas without the variable -/

omit [DecidableEq F] in
theorem D_operator_of_constant (op : Operator) {u v : L} (hu : I.D u = 0) (hv : I.D v = 0) :
    I.D (I.operator op u v) = 0 := by
  cases op with
  | power => exact I.D_power_of_constant hu hv
  | _ => simp [operator, Derivation.leibniz_div, hu, hv]

omit [DecidableEq F] in
/-- A formula without the variable is constant. -/
theorem D_value_of_not_contains {t : Tree F} (h : t.contains x = false) : I.D (I.value t) = 0 := by
  induction t with
  | constant c => exact I.D.map_algebraMap c
  | var y => exact I.D_env_of_ne (ne_of_beq_false h)
  | binary op left right ihl ihr =>
    simp only [contains, Bool.or_eq_false_iff] at h
    exact I.D_operator_of_constant op (ihl h.1.2) (ihr h.2)
  | unary f arg ih =>
    simp only [contains, Bool.or_eq_false_iff] at h
    exact I.D_func_of_constant (ih h.2)

/-! ### The rules -/

/-- The second formula is defined and stands for the derivative of the first. -/
def Sound (t r : Tree F) : Prop := I.Defined r ∧ I.value r = I.D (I.value t)

section Rules

variable {I} {u v du dv : Tree F}

omit [DecidableEq F] in
theorem Sound.sum {op : Operator} (hop : op = .plus ∨ op = .minus) (hu : I.Sound u du)
    (hv : I.Sound v dv) : I.Sound (binary op u v) (binary op du dv) := by
  rcases hop with rfl | rfl
  · refine ⟨⟨hu.1, hv.1, trivial⟩, ?_⟩
    simp only [value, operator, hu.2, hv.2, map_add]
  · refine ⟨⟨hu.1, hv.1, trivial⟩, ?_⟩
    simp only [value, operator, hu.2, hv.2, map_sub]

omit [DecidableEq F] in
theorem Sound.product (hu : I.Sound u du) (hv : I.Sound v dv) (hud : I.Defined u)
    (hvd : I.Defined v) :
    I.Sound (binary .times u v) (binary .plus (binary .times du v) (binary .times u dv)) := by
  refine ⟨⟨⟨hu.1, hvd, trivial⟩, ⟨hud, hv.1, trivial⟩, trivial⟩, ?_⟩
  simp only [value, operator, hu.2, hv.2, Derivation.leibniz, smul_eq_mul]
  ring

theorem Sound.quotient (hu : I.Sound u du) (hv : I.Sound v dv)
    (h : I.Defined (binary .divide u v)) :
    I.Sound (binary .divide u v) (binary .minus (binary .divide du v)
      (binary .times (binary .power v (number (-2))) (binary .times u dv))) := by
  obtain ⟨hud, hvd, hne⟩ := h
  refine ⟨⟨⟨hu.1, hvd, hne⟩,
    ⟨⟨hvd, trivial, .inl hne⟩, ⟨hud, hv.1, trivial⟩, trivial⟩, trivial⟩, ?_⟩
  have hpower := I.power_int (n := -2) (.inl hne)
  have hv' : I.value v ≠ 0 := hne
  simp only [value, operator, value_number, hpower, hu.2, hv.2, Derivation.leibniz_div, smul_eq_mul]
  field_simp

theorem Sound.power {n : F} {m : ℤ} (hm : (m : F) = n) (hbase : I.value u ≠ 0 ∨ 0 < m)
    (hu : I.Sound u du) (hud : I.Defined u) :
    I.Sound (binary .power u (constant n)) (binary .times (binary .times (constant n)
      (binary .power u (constant (Constant.pred n)))) du) := by
  have hpred : I.value (constant (Constant.pred n)) = ((m - 1 : ℤ) : L) := by
    show algebraMap F L (n - 1) = _
    rw [← hm, map_sub, map_intCast, map_one, Int.cast_sub, Int.cast_one]
  have hn : I.value (constant n) = (m : L) := by rw [value, ← hm, map_intCast]
  refine ⟨⟨⟨trivial, ⟨hud, trivial, hbase.imp_right fun hpos => ?_⟩, trivial⟩, hu.1, trivial⟩, ?_⟩
  · refine ⟨(m - 1).toNat, ?_⟩
    rw [hpred, ← Int.cast_natCast, Int.toNat_of_nonneg (by omega)]
  · have hlower := I.power_int (n := m - 1) (hbase.imp_right fun hpos => by omega)
    have hwhole := I.power_int (n := m) (hbase.imp_right le_of_lt)
    simp only [value_binary, hn, hpred, operator, hlower, hwhole, hu.2, Derivation.leibniz_zpow,
      zsmul_eq_mul, smul_eq_mul]
    ring

theorem Sound.chain {f : Func} {rule : Tree F → Tree F} (hrule : f.derivative? = some rule)
    (hu : I.Sound u du) (h : I.Defined (unary f u)) :
    I.Sound (unary f u) (binary .times (rule u) du) := by
  obtain ⟨hud, hf⟩ := h
  cases f with
  | abs => cases hrule
  | sinh => cases hrule
  | cosh => cases hrule
  | tanh => cases hrule
  | exp =>
    cases hrule
    refine ⟨⟨⟨hud, trivial⟩, hu.1, trivial⟩, ?_⟩
    simp only [value, operator, hu.2, I.D_exp]
  | sin =>
    cases hrule
    refine ⟨⟨⟨hud, trivial⟩, hu.1, trivial⟩, ?_⟩
    simp only [value, operator, hu.2, I.D_sin]
  | cos =>
    cases hrule
    refine ⟨⟨⟨trivial, ⟨hud, trivial⟩, trivial⟩, hu.1, trivial⟩, ?_⟩
    simp only [value, operator, value_number, hu.2, I.D_cos]
    push_cast
    ring
  | tan =>
    cases hrule
    have hsquare := I.power_int (u := I.func .tan (I.value u)) (n := 2) (.inr (by decide))
    refine ⟨⟨⟨trivial, ⟨⟨hud, trivial⟩, trivial, .inr ⟨2, by simp⟩⟩, trivial⟩, hu.1, trivial⟩, ?_⟩
    simp only [value, operator, value_number, hsquare, hu.2, I.D_tan]
    norm_cast
  | log =>
    cases hrule
    have hne : I.value u ≠ 0 := hf
    refine ⟨⟨⟨trivial, hud, hne⟩, hu.1, trivial⟩, ?_⟩
    simp only [value, operator, value_number, hu.2, I.D_log hne, Int.cast_one]
    field_simp
  | step =>
    cases hrule
    refine ⟨⟨trivial, hu.1, trivial⟩, ?_⟩
    simp only [value, operator, value_number, I.D_step, Int.cast_zero, zero_mul]

end Rules

/-! ### Whole derivatives -/

variable {I} in
/-- The exponent of a simplified power is an integer for which the power rule holds. -/
theorem exists_exponent {t u : Tree F} {n : F} {passes : ℤ} (hn : Constant.isInteger n = true)
    (h : t.simplify passes = binary .power u (constant n))
    (hdefined : I.Defined (binary .power u (constant n))) :
    ∃ m : ℤ, (m : F) = n ∧ (I.value u ≠ 0 ∨ 0 < m) := by
  obtain ⟨-, -, hne | ⟨k, hk⟩⟩ := hdefined
  · obtain ⟨m, hm⟩ := Option.isSome_iff_exists.1 hn
    exact ⟨m, ExactConstants.cast_integer? hm, .inl hne⟩
  · have hnk : ((k : ℤ) : F) = n := by
      apply (algebraMap F L).injective
      rw [map_intCast, Int.cast_natCast]
      exact hk.symm
    have hzero : n ≠ 0 := by
      have := isNumber_zero_of_simplify h
      simpa [isNumber, Constant.eq, Constant.ofInt] using this
    have hpos : k ≠ 0 := by
      rintro rfl
      exact hzero (by rw [← hnk]; simp)
    exact ⟨k, hnk, .inr (by omega)⟩

variable {I} in
/-- Simplifying before and after a rule does no harm. -/
theorem Sound.simplify {t s r : Tree F} {passes : ℤ} (hs : t.simplify passes = s)
    (h : I.Sound s r) : I.Sound t (r.simplify passes) := by
  subst hs
  refine ⟨h.1.simplify, ?_⟩
  rw [value_simplify, h.2, value_simplify]

variable {I} in
theorem sound_of_derives {t r : Tree F} {passes : ℤ} (hr : Derives x passes t r)
    (ht : I.Defined t) : I.Sound t r := by
  induction hr with
  | @free t h =>
    refine ⟨trivial, ?_⟩
    rw [value_number, Int.cast_zero, ← I.D_value_of_not_contains h, value_simplify]
  | @self t h =>
    refine ⟨trivial, ?_⟩
    rw [value_number, Int.cast_one, ← I.value_simplify (t := t), h]
    exact I.D_env_self.symm
  | sum hop h _ _ _ ihu ihv =>
    obtain ⟨hud, hvd, -⟩ := h ▸ ht.simplify
    exact (Sound.sum hop (ihu hud) (ihv hvd)).simplify h
  | product h _ _ _ ihu ihv =>
    obtain ⟨hud, hvd, -⟩ := h ▸ ht.simplify
    exact ((ihu hud).product (ihv hvd) hud hvd).simplify h
  | quotient h _ _ _ ihu ihv =>
    have hdefined := h ▸ ht.simplify
    exact ((ihu hdefined.1).quotient (ihv hdefined.2.1) hdefined).simplify h
  | power hn h _ _ ihu =>
    have hdefined := h ▸ ht.simplify
    obtain ⟨m, hm, hbase⟩ := exists_exponent hn h hdefined
    exact ((ihu hdefined.1).power hm hbase hdefined.1).simplify h
  | chain hrule h _ _ ihu =>
    have hdefined := h ▸ ht.simplify
    exact ((ihu hdefined.1).chain hrule hdefined).simplify h

/-- **The symbolic derivative is the derivative.**  Where a formula is defined and a derivative is
found for it, in any number of passes, the derivative is defined too, and its value is the
derivative of the value of the formula. -/
theorem value_differentiate (t r : Tree F) (passes : ℤ) (ht : I.Defined t)
    (h : t.differentiate x passes = .ok r) : I.Defined r ∧ I.value r = I.D (I.value t) :=
  sound_of_derives (derives_of_differentiate h) ht

/-- The tree of `sin(x)/x^2+y`. -/
def dampedWave : Tree ℚ :=
  binary .plus
    (binary .divide (unary .sin (var "x")) (binary .power (var "x") (constant 2))) (var "y")

/-- The tree of `cos(x)/x^2-x^2^(-2)*(sin(x)*(2*x))`. -/
def dampedSlope : Tree ℚ :=
  binary .minus
    (binary .divide (unary .cos (var "x")) (binary .power (var "x") (constant 2)))
    (binary .times (binary .power (binary .power (var "x") (constant 2)) (constant (-2)))
      (binary .times (unary .sin (var "x")) (binary .times (constant 2) (var "x"))))

theorem value_dampedSlope :
    (formalCalculus "x").Defined dampedWave ∧
      dampedWave.differentiate "x" 1 = .ok dampedSlope ∧
      (formalCalculus "x").Defined dampedSlope ∧
      (formalCalculus "x").value dampedSlope =
        (formalCalculus "x").D ((formalCalculus "x").value dampedWave) := by
  have hx := Formal.element_ne_zero (.variable "x")
  have htwo : algebraMap ℚ Formal.Element 2 = ((2 : ℤ) : Formal.Element) := by
    rw [map_ofNat, Int.cast_ofNat]
  have hsquare : (formalCalculus "x").value (binary .power (var "x") (constant 2)) ≠ 0 := by
    show Formal.power (Formal.element (.variable "x")) (algebraMap ℚ Formal.Element 2) ≠ 0
    rw [htwo, Formal.power_intCast]
    exact zpow_ne_zero 2 hx
  have hwave : (formalCalculus "x").Defined dampedWave :=
    ⟨⟨⟨trivial, trivial⟩, ⟨trivial, trivial, .inl hx⟩, hsquare⟩, trivial, trivial⟩
  have hslope : dampedWave.differentiate "x" 1 = .ok dampedSlope := by cbv
  exact ⟨hwave, hslope, value_differentiate _ dampedWave dampedSlope 1 hwave hslope⟩

end Calculus

end Formula
