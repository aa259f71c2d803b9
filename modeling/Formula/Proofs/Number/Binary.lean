import Formula.Number.Double
import Mathlib

/-!
The doubles taken apart.  `view x` is an infinity, the undefined number, a zero, or a sign with a
significand and an exponent; it determines the double (`view_injective`), always fits the format
(`fits_view`), and what fits the format is stored without change (`stored_of_fits`).  Two doubles
are equal as numbers exactly when their views agree, up to the sign of a zero (`eq_iff`).
-/

open Float.Model Float.Model.UnpackedFloat

namespace Formula.Double

/-- The format of the doubles. -/
abbrev format : Format := Format.binary64

/-- A double taken apart. -/
def view (x : Float) : UnpackedFloat := x.toModel.unpack

/-- What is left of a number when it is stored as a double. -/
def stored (f : UnpackedFloat) : UnpackedFloat := unpack format (pack format f)

/-- The number needs no rounding to be stored. -/
def Fits : UnpackedFloat → Prop
  | .finite _ m e _ => m < 2 ^ 53 ∧ -1074 ≤ e ∧ e ≤ 971 ∧ (2 ^ 52 ≤ m ∨ e = -1074)
  | _ => True

theorem bias_eq : format.exponentBias = 1023 := rfl

theorem mantissaBits_eq : format.mantissaBits = 53 := rfl

/-! ### The fields of the bits -/

section Fields

variable (b : BitVec format.numBits) (s : Sign) (e : BitVec 11) (m : BitVec 52)

theorem toNat_unpackMantissa : (unpackMantissa b).toNat = b.toNat % 2 ^ 52 := by
  simp [unpackMantissa, BitVec.extractLsb_toNat]

theorem toNat_unpackExponent : (unpackExponent b).toNat = b.toNat / 2 ^ 52 % 2 ^ 11 := by
  simp [unpackExponent, BitVec.extractLsb_toNat, Nat.shiftRight_eq_div_pow]

theorem toNat_unpackSign : (unpackSign b).toNat = b.toNat / 2 ^ 63 := by
  have hb : b.toNat < 2 ^ 64 := b.isLt
  simp only [unpackSign, BitVec.toNat_cast, BitVec.extractLsb_toNat, Nat.shiftRight_eq_div_pow]
  omega

theorem toNat_packComponents : (packComponents format s e m).toNat =
    s.toBitVec.toNat * 2 ^ 63 + e.toNat * 2 ^ 52 + m.toNat := by
  have he := e.isLt
  have hm := m.isLt
  simp only [packComponents, BitVec.toNat_append]
  rw [← Nat.shiftLeft_add_eq_or_of_lt he, ← Nat.shiftLeft_add_eq_or_of_lt hm]
  simp only [Nat.shiftLeft_eq]
  omega

theorem toBitVec_ofBitVec (t : BitVec 1) : (Sign.ofBitVec t).toBitVec = t := by
  revert t
  decide

theorem ofBitVec_toBitVec : Sign.ofBitVec s.toBitVec = s := by
  cases s <;> rfl

theorem unpackSign_packComponents : unpackSign (packComponents format s e m) = s.toBitVec := by
  have he := e.isLt
  have hm := m.isLt
  apply BitVec.eq_of_toNat_eq
  rw [toNat_unpackSign, toNat_packComponents]
  omega

theorem packComponents_unpack : packComponents format (Sign.ofBitVec (unpackSign b))
    (unpackExponent b) (unpackMantissa b) = b := by
  have hb : b.toNat < 2 ^ 64 := b.isLt
  apply BitVec.eq_of_toNat_eq
  rw [toNat_packComponents, toBitVec_ofBitVec, toNat_unpackSign, toNat_unpackExponent,
    toNat_unpackMantissa]
  omega

/-- The significand of a normal number has a leading one that is not stored. -/
theorem toNat_implicit : (1#1 ++ m).toNat = 2 ^ 52 + m.toNat := by
  rw [BitVec.toNat_append, ← Nat.shiftLeft_add_eq_or_of_lt m.isLt]
  simp [Nat.shiftLeft_eq]

theorem ofNat_ne_of_lt {n k : Nat} (hn : n < 2 ^ 11) (hk : n ≠ k % 2 ^ 11) :
    BitVec.ofNat 11 n ≠ BitVec.ofNat 11 k := fun h => by
  have := congrArg BitVec.toNat h
  rw [BitVec.toNat_ofNat, BitVec.toNat_ofNat, Nat.mod_eq_of_lt hn] at this
  exact hk this

theorem unpack_normal (hzero : e ≠ 0#11) (hinf : e ≠ -1#11) :
    unpack format (packComponents format s e m) =
      .finite s (1#1 ++ m).toNat ((e.toNat : Int) - 1075) (by rw [toNat_implicit]; omega) := by
  unfold UnpackedFloat.unpack
  simp only [unpackMantissa_packComponents, unpackExponent_packComponents,
    unpackSign_packComponents, ofBitVec_toBitVec, bias_eq, if_neg hinf, if_neg hzero]
  rfl

theorem unpack_subnormal (hm : 0 < m.toNat) :
    unpack format (packComponents format s 0#11 m) = .finite s m.toNat (-1074) hm := by
  have hne : m ≠ 0#52 := fun h => by simp [h] at hm
  have hinf : (0#11 : BitVec 11) ≠ -1#11 := by decide
  unfold UnpackedFloat.unpack
  simp only [unpackMantissa_packComponents, unpackExponent_packComponents,
    unpackSign_packComponents, ofBitVec_toBitVec, if_neg hinf, if_true, dif_neg hne]
  rfl

/-- How a number is packed. -/
theorem pack_finite {k : Nat} {x : Int} (hk : 0 < k) :
    UnpackedFloat.pack format (.finite s k x hk) =
      if 2 ^ 11 ≤ (x + 1023 + 52).toNat + 1 then packedInfinity format s
      else if k.log2 + 1 = 53 then
        packComponents format s (BitVec.ofNat 11 (x + 1023 + 52).toNat) (BitVec.ofNat 52 k)
      else packComponents format s 0#11 (BitVec.ofNat 52 k) := rfl

end Fields

/-! ### What fits is stored -/

theorem fits_unpack (b : BitVec format.numBits) : Fits (unpack format b) := by
  have hm : (unpackMantissa b).toNat < 2 ^ 52 := (unpackMantissa b).isLt
  have he : (unpackExponent b).toNat < 2 ^ 11 := (unpackExponent b).isLt
  unfold UnpackedFloat.unpack
  simp only [bias_eq]
  split
  · split <;> trivial
  · rename_i hinf
    have hlt : (unpackExponent b).toNat ≠ 2047 := fun h => hinf (BitVec.eq_of_toNat_eq h)
    split
    · rename_i hexp
      have hzero : (unpackExponent b).toNat = 0 := by rw [hexp]; rfl
      split
      · trivial
      · refine ⟨?_, ?_, ?_, .inr ?_⟩ <;> omega
    · rename_i hexp
      have hpos : (unpackExponent b).toNat ≠ 0 := fun h => hexp (BitVec.eq_of_toNat_eq h)
      rw [Fits, toNat_implicit]
      refine ⟨?_, ?_, ?_, .inl ?_⟩ <;> omega

theorem fits_view (x : Float) : Fits (view x) := fits_unpack _

theorem log2_eq_of_normal {m : Nat} (hlow : 2 ^ 52 ≤ m) (hhigh : m < 2 ^ 53) : m.log2 = 52 :=
  (Nat.log2_eq_iff (by omega)).2 ⟨hlow, hhigh⟩

theorem log2_lt_of_subnormal {m : Nat} (hm : m < 2 ^ 52) : m.log2 < 52 := by
  by_cases hzero : m = 0
  · rw [hzero]
    decide
  · exact (Nat.log2_lt hzero).2 hm

theorem stored_finite {s : Sign} {m : Nat} {e : Int} {hm : 0 < m}
    (h : Fits (.finite s m e hm)) : stored (.finite s m e hm) = .finite s m e hm := by
  obtain ⟨hlt, hlow, hhigh, hnormal⟩ := h
  unfold stored
  rw [pack_finite, if_neg (by omega)]
  by_cases h52 : 2 ^ 52 ≤ m
  · have hlog := log2_eq_of_normal h52 hlt
    have hmant : (1#1 ++ BitVec.ofNat 52 m).toNat = m := by
      rw [toNat_implicit, BitVec.toNat_ofNat]
      omega
    have hexp : (BitVec.ofNat 11 (e + 1023 + 52).toNat).toNat = (e + 1023 + 52).toNat := by
      rw [BitVec.toNat_ofNat, Nat.mod_eq_of_lt (by omega)]
    have hzero : BitVec.ofNat 11 (e + 1023 + 52).toNat ≠ 0#11 :=
      ofNat_ne_of_lt (by omega) (by omega)
    have hinf : BitVec.ofNat 11 (e + 1023 + 52).toNat ≠ -1#11 :=
      ofNat_ne_of_lt (k := 2047) (by omega) (by omega)
    rw [if_pos (by omega)]
    refine (unpack_normal s _ _ hzero hinf).trans ?_
    simp only [hmant, hexp]
    congr 1
    omega
  · have hlog := log2_lt_of_subnormal (show m < 2 ^ 52 by omega)
    have hmant : (BitVec.ofNat 52 m).toNat = m := by
      rw [BitVec.toNat_ofNat, Nat.mod_eq_of_lt (by omega)]
    rw [if_neg (by omega)]
    refine (unpack_subnormal s _ (by rw [hmant]; exact hm)).trans ?_
    simp only [hmant]
    congr 1
    omega

theorem stored_of_fits {f : UnpackedFloat} (h : Fits f) : stored f = f := by
  cases f with
  | infinity s => cases s <;> rfl
  | notANumber => rfl
  | zero s => cases s <;> rfl
  | finite s m e hm => exact stored_finite h

theorem stored_zero (s : Sign) : stored (.zero s) = .zero s := stored_of_fits trivial

/-! ### The view determines the double -/

theorem pack_unpack {b : BitVec format.numBits} (hb : format.Valid b) :
    pack format (unpack format b) = b := by
  have hm : (unpackMantissa b).toNat < 2 ^ 52 := (unpackMantissa b).isLt
  have he : (unpackExponent b).toNat < 2 ^ 11 := (unpackExponent b).isLt
  have hparts := packComponents_unpack b
  unfold UnpackedFloat.unpack
  simp only [bias_eq]
  split
  · rename_i hinf
    split
    · rename_i hzero
      rw [hinf, hzero] at hparts
      exact hparts
    · rename_i hnan
      exact (hb.eq_packedNaN hinf hnan).symm
  · rename_i hinf
    have hlt : (unpackExponent b).toNat ≠ 2047 := fun h => hinf (BitVec.eq_of_toNat_eq h)
    split
    · rename_i hexp
      have hzero : (unpackExponent b).toNat = 0 := by rw [hexp]; rfl
      rw [hexp] at hparts
      split
      · rename_i hmant
        rw [hmant] at hparts
        exact hparts
      · have hlog := log2_lt_of_subnormal hm
        rw [pack_finite, if_neg (by omega), if_neg (by omega), BitVec.ofNat_toNat]
        simpa using hparts
    · rename_i hexp
      have hpos : (unpackExponent b).toNat ≠ 0 := fun h => hexp (BitVec.eq_of_toNat_eq h)
      have himplicit := toNat_implicit (unpackMantissa b)
      have hlog : (1#1 ++ unpackMantissa b).toNat.log2 = 52 :=
        log2_eq_of_normal (by omega) (by omega)
      have hbiased : (((unpackExponent b).toNat : Int) - (1023 + 52) + 1023 + 52).toNat =
          (unpackExponent b).toNat := by omega
      have hmant : BitVec.ofNat 52 (1#1 ++ unpackMantissa b).toNat = unpackMantissa b := by
        apply BitVec.eq_of_toNat_eq
        rw [BitVec.toNat_ofNat, himplicit]
        omega
      rw [pack_finite, if_neg (by omega), if_pos (by omega)]
      refine Eq.trans ?_ hparts
      congr 1
      exact (congrArg (BitVec.ofNat 11) hbiased).trans (by simp)

theorem view_injective {x y : Float} (h : view x = view y) : x = y := by
  obtain ⟨⟨xbits, hx⟩⟩ := x
  obtain ⟨⟨ybits, hy⟩⟩ := y
  have hpacked := congrArg (pack format) h
  unfold view Float.Model.unpack at hpacked
  rw [pack_unpack hx, pack_unpack hy] at hpacked
  obtain rfl : xbits = ybits := UInt64.toBitVec_inj.1 hpacked
  rfl

/-! ### Equality of numbers -/

/-- A zero of either sign. -/
def IsZero : UnpackedFloat → Prop
  | .zero _ => True
  | _ => False

/-- The same number, up to the sign of a zero. -/
def Agree (f g : UnpackedFloat) : Prop := (f = g ∧ f ≠ .notANumber) ∨ (IsZero f ∧ IsZero g)

section Agree

variable {f g h : UnpackedFloat}

theorem IsZero.eq_zero (hf : IsZero f) : ∃ s, f = .zero s := by
  cases f with
  | zero s => exact ⟨s, rfl⟩
  | _ => exact hf.elim

theorem Agree.symm (hfg : Agree f g) : Agree g f := by
  rcases hfg with ⟨rfl, hf⟩ | ⟨hf, hg⟩
  · exact .inl ⟨rfl, hf⟩
  · exact .inr ⟨hg, hf⟩

theorem Agree.trans (hfg : Agree f g) (hgh : Agree g h) : Agree f h := by
  rcases hfg with ⟨rfl, -⟩ | ⟨hf, hg⟩
  · exact hgh
  · rcases hgh with ⟨rfl, -⟩ | ⟨-, hh⟩
    · exact .inr ⟨hf, hg⟩
    · exact .inr ⟨hf, hh⟩

theorem Agree.isFinite_eq (hfg : Agree f g) : f.isFinite = g.isFinite := by
  rcases hfg with ⟨rfl, -⟩ | ⟨hf, hg⟩
  · rfl
  · obtain ⟨s, rfl⟩ := hf.eq_zero
    obtain ⟨s', rfl⟩ := hg.eq_zero
    rfl

theorem agree_self (hf : f.isFinite) : Agree f f := by
  refine .inl ⟨rfl, ?_⟩
  rintro rfl
  exact absurd hf (by decide)

theorem agree_zero (s s' : Sign) : Agree (.zero s) (.zero s') := .inr ⟨trivial, trivial⟩

theorem Agree.isZero {s : Sign} (hf : Agree f (.zero s)) : IsZero f := by
  rcases hf with ⟨rfl, -⟩ | ⟨hf, -⟩
  · trivial
  · exact hf

theorem compare_eq_iff : f.compare g = some .eq ↔ Agree f g := by
  cases f with
  | notANumber => simp [UnpackedFloat.compare, Agree, IsZero]
  | infinity s =>
    cases g with
    | infinity s' => cases s <;> cases s' <;> simp [UnpackedFloat.compare, Agree, IsZero, compare]
    | notANumber => simp [UnpackedFloat.compare, Agree, IsZero]
    | zero s' => cases s <;> simp [UnpackedFloat.compare, Agree, IsZero]
    | finite s' m' e' => cases s <;> simp [UnpackedFloat.compare, Agree, IsZero]
  | zero s =>
    cases g with
    | infinity s' => cases s' <;> simp [UnpackedFloat.compare, Agree, IsZero]
    | notANumber => simp [UnpackedFloat.compare, Agree, IsZero]
    | zero s' => simp [UnpackedFloat.compare, Agree, IsZero]
    | finite s' m' e' => cases s' <;> simp [UnpackedFloat.compare, Agree, IsZero]
  | finite s m e =>
    cases g with
    | infinity s' => cases s' <;> simp [UnpackedFloat.compare, Agree, IsZero]
    | notANumber => simp [UnpackedFloat.compare, Agree, IsZero]
    | zero s' => cases s <;> simp [UnpackedFloat.compare, Agree, IsZero]
    | finite s' m' e' =>
      cases s <;> cases s' <;> simp [UnpackedFloat.compare, Agree, IsZero, and_comm]

end Agree

/-- **Equal numbers** are those whose views agree. -/
theorem eq_iff {x y : Float} : Kernel.eq x y = true ↔ Agree (view x) (view y) := by
  have hbeq : Kernel.eq x y = ((view x).compare (view y) == some .eq) := rfl
  rw [hbeq, beq_iff_eq, compare_eq_iff]

theorem lt_iff {x y : Float} : Kernel.lt x y = true ↔ (view x).compare (view y) = some .lt := by
  show decide _ = true ↔ _
  rw [decide_eq_true_iff, ← beq_iff_eq]
  rfl

theorem le_iff {x y : Float} :
    Kernel.le x y = true ↔ ((view x).compare (view y)).any (·.isLE) = true := by
  show decide _ = true ↔ _
  rw [decide_eq_true_iff]
  rfl

end Formula.Double
