import Formula.Proofs.Number.Binary

/-!
The arithmetic of the doubles as far as reading and simplification rely on it.  A product that fits
the format is exact (`round_exact`), no operation with a finite result tells the two zeros apart
(`Blind.agree`), and the neutral operands of the four operations are neutral up to the sign of a
zero.
-/

open Float.Model Float.Model.UnpackedFloat

namespace Formula.Double

/-! ### The operations on views -/

section Views

variable (x y : Float)

theorem view_add : view (x + y) = stored (UnpackedFloat.add format (view x) (view y)) := rfl

theorem view_sub : view (x - y) = stored (UnpackedFloat.sub format (view x) (view y)) := rfl

theorem view_mul : view (x * y) = stored (UnpackedFloat.mul format (view x) (view y)) := rfl

theorem view_div : view (x / y) = stored (UnpackedFloat.div format (view x) (view y)) := rfl

theorem view_abs : view x.abs = stored (UnpackedFloat.abs (view x)) := rfl

theorem isFinite_iff : x.isFinite = true ↔ (view x).isFinite = true := Iff.rfl

end Views

/-- One or minus one. -/
def unit (s : Sign) : UnpackedFloat := .finite s (2 ^ 52) (-52) (by decide)

theorem view_zero : view 0.0 = .zero .positive := rfl

theorem view_one : view 1.0 = unit .positive := rfl

theorem view_negOne : view (-1.0) = unit .negative := rfl

/-! ### Exact rounding -/

theorem log2_mul_twoPow {m : Nat} (hm : 0 < m) (k : Nat) : (m * 2 ^ k).log2 = m.log2 + k := by
  induction k with
  | zero => simp
  | succ k ih =>
    have hne : m * 2 ^ k ≠ 0 := Nat.ne_of_gt (Nat.mul_pos hm (Nat.two_pow_pos k))
    have htwice : m * 2 ^ (k + 1) = 2 * (m * 2 ^ k) := by ring
    rw [htwice, Nat.log2_two_mul hne, ih, Nat.add_assoc]

theorem repeat_shiftRightOne (k m : Nat) :
    k.repeat ExtendedMantissa.shiftRightOne ⟨m * 2 ^ k, false, false⟩ = ⟨m, false, false⟩ := by
  induction k generalizing m with
  | zero => simp [Nat.repeat]
  | succ k ih =>
    have htwice : m * 2 ^ (k + 1) = 2 * m * 2 ^ k := by ring
    simp [Nat.repeat, htwice, ih, ExtendedMantissa.shiftRightOne]

/-- Zeros shifted out leave no trace. -/
theorem shift_exact (m k : Nat) (e : Int) :
    shiftToExponent (m * 2 ^ k) (e - k) .exact e = (⟨m, false, false⟩, e) := by
  have hk : (e - (e - (k : Int))).toNat = k := by omega
  simp only [shiftToExponent, ExtendedMantissa.ofMantissaAndAccuracy, hk]
  refine Prod.ext (repeat_shiftRightOne k m) ?_
  simp only
  omega

theorem targetExponent_of_fits {s : Sign} {m : Nat} {e : Int} {hm : 0 < m}
    (h : Fits (.finite s m e hm)) : format.targetExponent (totalExponent m e) = e := by
  obtain ⟨hlt, hlow, -, hnormal⟩ := h
  have hmin : format.minExponent = -1074 := rfl
  simp only [Format.targetExponent, totalExponent, mantissaBits_eq, hmin]
  by_cases h52 : 2 ^ 52 ≤ m
  · have := log2_eq_of_normal h52 hlt
    omega
  · have := log2_lt_of_subnormal (show m < 2 ^ 52 by omega)
    omega

/-- **What fits is not rounded**, with however many zeros at its end it is written. -/
theorem round_exact {s : Sign} {m : Nat} {e : Int} {hm : 0 < m}
    (h : Fits (.finite s m e hm)) (k : Nat) :
    roundWithAccuracy format s (m * 2 ^ k) (e - k) .exact = .finite s m e hm := by
  have htotal : totalExponent (m * 2 ^ k) (e - k) = totalExponent m e := by
    simp only [totalExponent, log2_mul_twoPow hm]
    omega
  have htarget := targetExponent_of_fits h
  have hagain := shift_exact m 0 e
  simp only [pow_zero, Nat.mul_one, Int.natCast_zero, Int.sub_zero] at hagain
  simp only [roundWithAccuracy, shiftToTargetExponent, htotal, htarget, shift_exact,
    ExtendedMantissa.roundedMantissa, ExtendedMantissa.accuracy, Accuracy.roundToNearestEven,
    hagain]
  rw [dif_neg (Nat.ne_of_gt hm)]

theorem mul_unit {s : Sign} {m : Nat} {e : Int} {hm : 0 < m} (h : Fits (.finite s m e hm))
    (t : Sign) : UnpackedFloat.mul format (.finite s m e hm) (unit t) = .finite (s * t) m e hm :=
  round_exact (s := s * t) h 52

theorem unit_mul {s : Sign} {m : Nat} {e : Int} {hm : 0 < m} (h : Fits (.finite s m e hm))
    (t : Sign) : UnpackedFloat.mul format (unit t) (.finite s m e hm) = .finite (t * s) m e hm := by
  show roundWithAccuracy format (t * s) (2 ^ 52 * m) (-52 + e) .exact = _
  rw [Nat.mul_comm, Int.add_comm]
  exact round_exact (s := t * s) h 52

/-! ### Finite numbers -/

/-- A finite number is a zero or has a significand. -/
theorem zero_or_finite {f : UnpackedFloat} (h : f.isFinite) :
    (∃ s, f = .zero s) ∨ ∃ s m e hm, f = .finite s m e hm := by
  cases f with
  | zero s => exact .inl ⟨s, rfl⟩
  | finite s m e hm => exact .inr ⟨s, m, e, hm, rfl⟩
  | notANumber => exact absurd h nofun
  | infinity s => exact absurd h nofun

/-! ### The sign of a zero -/

theorem not_isFinite_infinity (s : Sign) : ¬ (stored (.infinity s)).isFinite := by
  cases s <;> decide

theorem not_isFinite_notANumber : ¬ (stored .notANumber).isFinite := by
  decide

theorem agree_stored_zero (s s' : Sign) : Agree (stored (.zero s)) (stored (.zero s')) := by
  rw [stored_zero, stored_zero]
  exact agree_zero s s'

theorem stored_zero_agree (s s' : Sign) : Agree (stored (.zero s)) (.zero s') := by
  rw [stored_zero]
  exact agree_zero s s'

/-- An operation that tells zeros apart only where its result is not finite. -/
structure Blind (op : UnpackedFloat → UnpackedFloat → UnpackedFloat) : Prop where
  left : ∀ {s s' g}, (op (.zero s) g).isFinite → Agree (op (.zero s') g) (op (.zero s) g)
  right : ∀ {f s s'}, (op f (.zero s)).isFinite → Agree (op f (.zero s')) (op f (.zero s))

theorem Blind.agree {op} (hop : Blind op) {f f' g g' : UnpackedFloat} (hf : Agree f f')
    (hg : Agree g g') (h : (op f g).isFinite) : Agree (op f' g') (op f g) := by
  have hleft : Agree (op f' g) (op f g) := by
    rcases hf with ⟨rfl, -⟩ | ⟨hf, hf'⟩
    · exact agree_self h
    · obtain ⟨s, rfl⟩ := hf.eq_zero
      obtain ⟨s', rfl⟩ := hf'.eq_zero
      exact hop.left h
  have h' : (op f' g).isFinite := hleft.isFinite_eq.trans h
  refine Agree.trans ?_ hleft
  rcases hg with ⟨rfl, -⟩ | ⟨hg, hg'⟩
  · exact agree_self h'
  · obtain ⟨s, rfl⟩ := hg.eq_zero
    obtain ⟨s', rfl⟩ := hg'.eq_zero
    exact hop.right h'

theorem add_zeros (s s' : Sign) :
    ∃ t, UnpackedFloat.add format (.zero s) (.zero s') = .zero t := by
  cases s <;> cases s' <;> exact ⟨_, rfl⟩

theorem sub_zeros (s s' : Sign) :
    ∃ t, UnpackedFloat.sub format (.zero s) (.zero s') = .zero t := by
  cases s <;> cases s' <;> exact ⟨_, rfl⟩

theorem blind_add : Blind fun f g => stored (UnpackedFloat.add format f g) where
  left {s s' g} h := by
    cases g with
    | zero t =>
      obtain ⟨_, hs⟩ := add_zeros s t
      obtain ⟨_, hs'⟩ := add_zeros s' t
      simp only [hs, hs']
      exact agree_stored_zero _ _
    | notANumber => exact absurd h not_isFinite_notANumber
    | infinity t => exact absurd h (not_isFinite_infinity _)
    | finite t m e => exact agree_self h
  right {f s s'} h := by
    cases f with
    | zero t =>
      obtain ⟨_, hs⟩ := add_zeros t s
      obtain ⟨_, hs'⟩ := add_zeros t s'
      simp only [hs, hs']
      exact agree_stored_zero _ _
    | notANumber => exact absurd h not_isFinite_notANumber
    | infinity t => exact absurd h (not_isFinite_infinity _)
    | finite t m e => exact agree_self h

theorem blind_sub : Blind fun f g => stored (UnpackedFloat.sub format f g) where
  left {s s' g} h := by
    cases g with
    | zero t =>
      obtain ⟨_, hs⟩ := sub_zeros s t
      obtain ⟨_, hs'⟩ := sub_zeros s' t
      simp only [hs, hs']
      exact agree_stored_zero _ _
    | notANumber => exact absurd h not_isFinite_notANumber
    | infinity t => exact absurd h (not_isFinite_infinity _)
    | finite t m e => exact agree_self h
  right {f s s'} h := by
    cases f with
    | zero t =>
      obtain ⟨_, hs⟩ := sub_zeros t s
      obtain ⟨_, hs'⟩ := sub_zeros t s'
      simp only [hs, hs']
      exact agree_stored_zero _ _
    | notANumber => exact absurd h not_isFinite_notANumber
    | infinity t => exact absurd h (not_isFinite_infinity _)
    | finite t m e => exact agree_self h

theorem blind_mul : Blind fun f g => stored (UnpackedFloat.mul format f g) where
  left {s s' g} h := by
    cases g with
    | zero t => exact agree_stored_zero _ _
    | notANumber => exact absurd h not_isFinite_notANumber
    | infinity t => exact absurd h not_isFinite_notANumber
    | finite t m e => exact agree_stored_zero _ _
  right {f s s'} h := by
    cases f with
    | zero t => exact agree_stored_zero _ _
    | notANumber => exact absurd h not_isFinite_notANumber
    | infinity t => exact absurd h not_isFinite_notANumber
    | finite t m e => exact agree_stored_zero _ _

theorem blind_div : Blind fun f g => stored (UnpackedFloat.div format f g) where
  left {s s' g} h := by
    cases g with
    | zero t => exact absurd h not_isFinite_notANumber
    | notANumber => exact absurd h not_isFinite_notANumber
    | infinity t => exact agree_stored_zero _ _
    | finite t m e => exact agree_stored_zero _ _
  right {f s s'} h := by
    cases f with
    | zero t => exact absurd h not_isFinite_notANumber
    | notANumber => exact absurd h not_isFinite_notANumber
    | infinity t => exact absurd h (not_isFinite_infinity _)
    | finite t m e => exact absurd h (not_isFinite_infinity _)

/-! ### Neutral operands -/

theorem sign_mul_positive (s : Sign) : s * .positive = s := by
  cases s <;> rfl

theorem positive_mul_sign (s : Sign) : .positive * s = s := by
  cases s <;> rfl

theorem negative_mul_sign (s : Sign) : .negative * s = -s := by
  cases s <;> rfl

theorem agree_stored {f : UnpackedFloat} (hf : Fits f) (h : f.isFinite) : Agree (stored f) f := by
  rw [stored_of_fits hf]
  exact agree_self h

section Neutral

variable {f : UnpackedFloat} (hf : Fits f) (h : f.isFinite)

include hf h

theorem agree_add_zero : Agree (stored (UnpackedFloat.add format f (.zero .positive))) f := by
  rcases zero_or_finite h with ⟨s, rfl⟩ | ⟨s, m, e, hm, rfl⟩
  · obtain ⟨_, hs⟩ := add_zeros s .positive
    rw [hs]
    exact stored_zero_agree _ _
  · exact agree_stored hf rfl

theorem agree_zero_add : Agree (stored (UnpackedFloat.add format (.zero .positive) f)) f := by
  rcases zero_or_finite h with ⟨s, rfl⟩ | ⟨s, m, e, hm, rfl⟩
  · obtain ⟨_, hs⟩ := add_zeros .positive s
    rw [hs]
    exact stored_zero_agree _ _
  · exact agree_stored hf rfl

theorem agree_sub_zero : Agree (stored (UnpackedFloat.sub format f (.zero .positive))) f := by
  rcases zero_or_finite h with ⟨s, rfl⟩ | ⟨s, m, e, hm, rfl⟩
  · obtain ⟨_, hs⟩ := sub_zeros s .positive
    rw [hs]
    exact stored_zero_agree _ _
  · exact agree_stored hf rfl

theorem agree_mul_one : Agree (stored (UnpackedFloat.mul format f (unit .positive))) f := by
  rcases zero_or_finite h with ⟨s, rfl⟩ | ⟨s, m, e, hm, rfl⟩
  · exact stored_zero_agree _ _
  · rw [mul_unit hf, sign_mul_positive]
    exact agree_stored hf rfl

theorem agree_one_mul : Agree (stored (UnpackedFloat.mul format (unit .positive) f)) f := by
  rcases zero_or_finite h with ⟨s, rfl⟩ | ⟨s, m, e, hm, rfl⟩
  · exact stored_zero_agree _ _
  · rw [unit_mul hf, positive_mul_sign]
    exact agree_stored hf rfl

/-- A difference from zero is a product with minus one. -/
theorem agree_zero_sub : Agree (stored (UnpackedFloat.sub format (.zero .positive) f))
    (stored (UnpackedFloat.mul format (unit .negative) f)) := by
  rcases zero_or_finite h with ⟨s, rfl⟩ | ⟨s, m, e, hm, rfl⟩
  · obtain ⟨_, hs⟩ := sub_zeros .positive s
    rw [hs]
    exact agree_stored_zero _ _
  · have hneg : Fits (.finite (-s) m e hm) := hf
    rw [unit_mul hf, negative_mul_sign]
    show Agree (stored (.finite (-s) m e _)) _
    rw [stored_of_fits hneg]
    exact agree_self rfl

omit hf in
theorem agree_mul_zero :
    Agree (stored (UnpackedFloat.mul format f (.zero .positive))) (.zero .positive) := by
  rcases zero_or_finite h with ⟨s, rfl⟩ | ⟨s, m, e, hm, rfl⟩
  · exact stored_zero_agree _ _
  · exact stored_zero_agree _ _

omit hf in
theorem agree_zero_mul :
    Agree (stored (UnpackedFloat.mul format (.zero .positive) f)) (.zero .positive) := by
  rcases zero_or_finite h with ⟨s, rfl⟩ | ⟨s, m, e, hm, rfl⟩
  · exact stored_zero_agree _ _
  · exact stored_zero_agree _ _

end Neutral

/-- A quotient of zero is zero unless it is undefined. -/
theorem agree_zero_div {f : UnpackedFloat}
    (h : (stored (UnpackedFloat.div format (.zero .positive) f)).isFinite) :
    Agree (stored (UnpackedFloat.div format (.zero .positive) f)) (.zero .positive) := by
  cases f with
  | zero s => exact absurd h not_isFinite_notANumber
  | notANumber => exact absurd h not_isFinite_notANumber
  | infinity s => exact stored_zero_agree _ _
  | finite s m e => exact stored_zero_agree _ _

/-- A difference of a finite number from a zero is finite. -/
theorem isFinite_zero_sub {f g : UnpackedFloat} (hf : Fits f) (h : f.isFinite) (hg : IsZero g) :
    (stored (UnpackedFloat.sub format g f)).isFinite := by
  obtain ⟨t, rfl⟩ := hg.eq_zero
  rcases zero_or_finite h with ⟨s, rfl⟩ | ⟨s, m, e, hm, rfl⟩
  · obtain ⟨_, hs⟩ := sub_zeros t s
    rw [hs, stored_zero]
    rfl
  · have hneg : Fits (.finite (-s) m e hm) := hf
    show (stored (.finite (-s) m e _)).isFinite
    rw [stored_of_fits hneg]
    rfl

/-- Only a finite number has a finite product with one or minus one. -/
theorem isFinite_of_unit_mul {f : UnpackedFloat} {t : Sign}
    (h : (stored (UnpackedFloat.mul format (unit t) f)).isFinite) : f.isFinite := by
  cases f with
  | zero s => rfl
  | notANumber => exact absurd h not_isFinite_notANumber
  | infinity s => exact absurd h (not_isFinite_infinity _)
  | finite s m e => rfl

end Formula.Double
