import Formula.Number.Numeral
import Mathlib.Tactic.Common
import Mathlib.Tactic.Ring

/-!
Decimals and their digits.  The digits of a number denote it again (`ofDigits_toDigits`), and a
decimal has one form without zeros at its end (`trimmed_mul_tenPow`, `trimmed_trimmed`).
-/

namespace Formula

/-! ### Digits -/

namespace Numeral

theorem ofDigits_eq (cs : List Char) : ofDigits cs = Nat.ofDigitChars 10 cs 0 := rfl

theorem ofDigits_toDigits (n : Nat) : ofDigits (Nat.toDigits 10 n) = n := by
  rw [ofDigits_eq, Nat.ofDigitChars_ten_toDigits]

theorem ofDigits_append (cs ds : List Char) :
    ofDigits (cs ++ ds) = ofDigits cs * 10 ^ ds.length + ofDigits ds := by
  simp only [ofDigits_eq]
  rw [Nat.ofDigitChars_append, Nat.ofDigitChars_eq_ofDigitChars_zero, Nat.mul_comm]

theorem ofDigits_zeros (n : Nat) : ofDigits (List.replicate n '0') = 0 := by
  rw [ofDigits_eq, Nat.ofDigitChars_replicate_zero, Nat.mul_zero]

theorem ofDigits_zeros_append (n : Nat) (cs : List Char) :
    ofDigits (List.replicate n '0' ++ cs) = ofDigits cs := by
  rw [ofDigits_append, ofDigits_zeros, Nat.zero_mul, Nat.zero_add]

theorem ofDigits_append_zeros (cs : List Char) (n : Nat) :
    ofDigits (cs ++ List.replicate n '0') = ofDigits cs * 10 ^ n := by
  rw [ofDigits_append, ofDigits_zeros, List.length_replicate, Nat.add_zero]

end Numeral

/-! ### Zeros at the end -/

namespace Decimal

variable (m : Nat) (e : Int)

theorem trimZeros_of_dvd {m : Nat} (hm : m ≠ 0) :
    trimZeros (m * 10) e = trimZeros m (e + 1) := by
  have hdvd : m * 10 ≠ 0 ∧ m * 10 % 10 = 0 := by omega
  have hdiv : m * 10 / 10 = m := by omega
  rw [trimZeros, dif_pos hdvd, hdiv]

theorem trimmed_mul_ten : (Decimal.mk (m * 10) e).trimmed = (Decimal.mk m (e + 1)).trimmed := by
  by_cases hm : m = 0
  · rw [hm]
    rfl
  · simp only [trimmed]
    rw [if_neg (by omega), if_neg hm, trimZeros_of_dvd e hm]

/-- Zeros at the end of the digits count as exponent. -/
theorem trimmed_mul_tenPow (k : Nat) :
    (Decimal.mk (m * 10 ^ k) e).trimmed = (Decimal.mk m (e + k)).trimmed := by
  induction k generalizing m e with
  | zero => rw [Nat.pow_zero, Nat.mul_one, Int.natCast_zero, Int.add_zero]
  | succ k ih =>
    have hpow : m * 10 ^ (k + 1) = m * 10 * 10 ^ k := by ring
    rw [hpow, ih, trimmed_mul_ten]
    congr 2
    push_cast
    ring

theorem trimZeros_mantissa_ne_zero {m : Nat} (hm : m ≠ 0) :
    (trimZeros m e).mantissa ≠ 0 := by
  induction m, e using trimZeros.induct with
  | case1 m e h ih =>
    rw [trimZeros, dif_pos h]
    exact ih (by omega)
  | case2 m e h =>
    rw [trimZeros, dif_neg h]
    exact hm

theorem trimZeros_trimZeros {m : Nat} (hm : m ≠ 0) :
    trimZeros (trimZeros m e).mantissa (trimZeros m e).exponent = trimZeros m e := by
  induction m, e using trimZeros.induct with
  | case1 m e h ih =>
    have hgo : trimZeros m e = trimZeros (m / 10) (e + 1) := by rw [trimZeros, dif_pos h]
    rw [hgo]
    exact ih (by omega)
  | case2 m e h =>
    have hstop : trimZeros m e = ⟨m, e⟩ := by rw [trimZeros, dif_neg h]
    rw [hstop, hstop]

theorem trimmed_trimmed (d : Decimal) : d.trimmed.trimmed = d.trimmed := by
  by_cases hm : d.mantissa = 0
  · simp only [trimmed, if_pos hm, if_true]
  · have hne := trimZeros_mantissa_ne_zero d.exponent hm
    simp only [trimmed, if_neg hm, if_neg hne]
    exact trimZeros_trimZeros d.exponent hm

end Decimal

end Formula
