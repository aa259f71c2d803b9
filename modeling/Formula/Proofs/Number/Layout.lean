import Formula.Number.Layout
import Formula.Proofs.Number.NumberText

/-!
The layouts write texts of numbers.  However a decimal without zeros at its end is laid out, what is
written has the parts of a number and denotes the decimal again (`exists_magnitudeText`).
-/

namespace Formula

open Numeral

/-- The text is that of a number and denotes a decimal. -/
def Writes (cs : List Char) (d : Decimal) : Prop := ∃ t : NumberText, t.chars = cs ∧ t.decimal = d

/-! ### Digits -/

namespace Decimal

variable (d : Decimal)

theorem isDigit_digits : ∀ c ∈ d.digits, c.isDigit :=
  fun _ hc => Nat.isDigit_of_mem_toDigits (by decide) (by decide) hc

theorem digits_ne_nil : d.digits ≠ [] := Nat.toDigits_ne_nil

theorem ofDigits_digits : ofDigits d.digits = d.mantissa := ofDigits_toDigits d.mantissa

theorem leading_eq : d.leading = d.exponent + d.digits.length - 1 := rfl

/-- Any number of zeros may be written at the end of a decimal. -/
theorem trimmed_eq {d : Decimal} (hd : d.trimmed = d) {m : Nat} {e : Int} (k : Nat)
    (hm : m = d.mantissa * 10 ^ k) (he : e + k = d.exponent) : (Decimal.mk m e).trimmed = d := by
  rw [hm, trimmed_mul_tenPow, he]
  exact hd

end Decimal

theorem isDigit_zeros (n : Nat) : ∀ c ∈ List.replicate n '0', c.isDigit := by
  intro c hc
  rw [List.eq_of_mem_replicate hc]
  rfl

theorem isDigit_append {cs ds : List Char} (hcs : ∀ c ∈ cs, c.isDigit)
    (hds : ∀ c ∈ ds, c.isDigit) : ∀ c ∈ cs ++ ds, c.isDigit := by
  intro c hc
  rcases List.mem_append.1 hc with hc | hc
  · exact hcs c hc
  · exact hds c hc

/-! ### The three forms -/

section Forms

variable (whole : List Char) (hne : whole ≠ []) (hwhole : ∀ c ∈ whole, c.isDigit)

include hne hwhole

theorem writes_digits : Writes whole (Decimal.mk (ofDigits whole) 0).trimmed := by
  refine ⟨⟨whole, none, none, hne, hwhole, by simp, by simp, by simp⟩, ?_, ?_⟩
  · simp only [NumberText.chars, NumberText.fractionChars, NumberText.exponentChars,
      List.append_nil]
  · simp only [NumberText.decimal, NumberText.exponentValue, Option.getD_none, List.append_nil,
      List.length_nil, Int.natCast_zero, Int.sub_zero]

theorem writes_point (fraction : List Char) (hfraction : ∀ c ∈ fraction, c.isDigit) :
    Writes (whole ++ '.' :: fraction)
      (Decimal.mk (ofDigits (whole ++ fraction)) (-fraction.length)).trimmed := by
  refine ⟨⟨whole, some fraction, none, hne, hwhole, ?_, by simp, by simp⟩, ?_, ?_⟩
  · rintro cs ⟨⟩
    exact hfraction
  · simp only [NumberText.chars, NumberText.fractionChars, NumberText.exponentChars,
      List.append_nil]
  · simp only [NumberText.decimal, NumberText.exponentValue, Option.getD_some, Int.zero_sub]

theorem writes_exponent (fraction : Option (List Char))
    (hfraction : ∀ cs ∈ fraction, ∀ c ∈ cs, c.isDigit) (sign : Option Bool) {ds : List Char}
    (hds : ds ≠ []) (hdigits : ∀ c ∈ ds, c.isDigit) :
    Writes (whole ++ (NumberText.fractionChars fraction ++
        'e' :: (NumberText.signChars sign ++ ds)))
      (Decimal.mk (ofDigits (whole ++ fraction.getD []))
        (NumberText.exponentValue (some (sign, ds)) - (fraction.getD []).length)).trimmed := by
  refine ⟨⟨whole, fraction, some (sign, ds), hne, hwhole, hfraction, ?_, ?_⟩, rfl, rfl⟩
  · rintro p ⟨⟩
    exact hds
  · rintro p ⟨⟩
    exact hdigits

end Forms

theorem exists_exponentText (width : Nat) (e : Int) : ∃ sign ds, ds ≠ [] ∧
    (∀ c ∈ ds, c.isDigit) ∧ Layout.exponentText width e = NumberText.signChars sign ++ ds ∧
      NumberText.exponentValue (some (sign, ds)) = e := by
  refine ⟨some (decide (e < 0)), List.replicate (width - (Nat.toDigits 10 e.natAbs).length) '0' ++
    Nat.toDigits 10 e.natAbs, ?_, ?_, ?_, ?_⟩
  · exact List.append_ne_nil_of_right_ne_nil _ Nat.toDigits_ne_nil
  · exact isDigit_append (isDigit_zeros _) fun _ hc =>
      Nat.isDigit_of_mem_toDigits (by decide) (by decide) hc
  · by_cases hneg : e < 0 <;> simp [Layout.exponentText, NumberText.signChars, hneg]
  · simp only [NumberText.exponentValue, Option.getD_some, ofDigits_zeros_append,
      ofDigits_toDigits, decide_eq_true_eq]
    split <;> omega

/-! ### Layouts -/

section Layouts

variable {d : Decimal} (hd : d.trimmed = d)

include hd

theorem writes_whole (h : 0 ≤ d.exponent) :
    Writes (Nat.toDigits 10 (d.mantissa * tenPow d.exponent.toNat)) d := by
  have hwrites := writes_digits (Nat.toDigits 10 (d.mantissa * tenPow d.exponent.toNat))
    Nat.toDigits_ne_nil fun _ hc => Nat.isDigit_of_mem_toDigits (by decide) (by decide) hc
  have hvalue := Decimal.trimmed_eq hd (m := d.mantissa * tenPow d.exponent.toNat) (e := 0)
    d.exponent.toNat rfl (by omega)
  rwa [ofDigits_toDigits, hvalue] at hwrites

theorem writes_positional : Writes (Layout.positional d.digits d.leading) d := by
  have hleading := d.leading_eq
  have hdigits := d.isDigit_digits
  have hmantissa := d.ofDigits_digits
  by_cases hneg : d.leading < 0
  · have hfraction := isDigit_append (isDigit_zeros (-d.leading - 1).toNat) hdigits
    have hwrites := writes_point ['0'] (by simp) (by simp) _ hfraction
    have hvalue : ofDigits (['0'] ++ (List.replicate (-d.leading - 1).toNat '0' ++ d.digits)) =
        d.mantissa * 10 ^ 0 := by
      rw [← List.append_assoc, Nat.pow_zero, Nat.mul_one, ← hmantissa]
      exact ofDigits_zeros_append (_ + 1) d.digits
    have hdecimal := Decimal.trimmed_eq hd
      (e := -(List.replicate (-d.leading - 1).toNat '0' ++ d.digits).length) 0 hvalue
      (by rw [List.length_append, List.length_replicate]; omega)
    rw [hdecimal] at hwrites
    simpa [Layout.positional, hneg] using hwrites
  · have htake : ∀ c ∈ d.digits.take (d.leading.toNat + 1), c.isDigit :=
      fun c hc => hdigits c (List.mem_of_mem_take hc)
    have hdrop : ∀ c ∈ d.digits.drop (d.leading.toNat + 1), c.isDigit :=
      fun c hc => hdigits c (List.mem_of_mem_drop hc)
    have hne : d.digits.take (d.leading.toNat + 1) ≠ [] := by
      simpa using d.digits_ne_nil
    by_cases hlong : d.leading.toNat + 1 < d.digits.length
    · have hwrites := writes_point _ hne htake _ hdrop
      have hfraction : d.digits.drop (d.leading.toNat + 1) ≠ [] := by
        simpa using hlong
      have hdecimal := Decimal.trimmed_eq hd
        (e := -(d.digits.drop (d.leading.toNat + 1)).length) 0
        (m := ofDigits d.digits) (by omega) (by rw [List.length_drop]; omega)
      rw [List.take_append_drop, hdecimal] at hwrites
      have hzeros : d.leading.toNat + 1 - d.digits.length = 0 := by omega
      simpa [Layout.positional, hneg, hfraction, hzeros] using hwrites
    · have hshort : d.digits.length ≤ d.leading.toNat + 1 := by omega
      have hzeros := isDigit_zeros (d.leading.toNat + 1 - d.digits.length)
      have hwrites := writes_point (d.digits ++ List.replicate _ '0')
        (by simpa using fun h => absurd h d.digits_ne_nil)
        (isDigit_append hdigits hzeros) ['0'] (by simp)
      have hvalue : ofDigits (d.digits ++ List.replicate
          (d.leading.toNat + 1 - d.digits.length) '0' ++ ['0']) =
            d.mantissa * 10 ^ (d.leading.toNat + 1 - d.digits.length + 1) := by
        rw [List.append_assoc, ← hmantissa, ← ofDigits_append_zeros, List.replicate_succ']
      have hdecimal := Decimal.trimmed_eq hd (e := -(['0'] : List Char).length) _ hvalue
        (by simp only [List.length_singleton]; omega)
      rw [hdecimal] at hwrites
      simpa [Layout.positional, hneg, List.take_of_length_le hshort,
        List.drop_of_length_le hshort] using hwrites

theorem writes_exponential (width : Nat) :
    Writes (Layout.exponential width d.digits d.leading) d := by
  have hleading := d.leading_eq
  have hdigits := d.isDigit_digits
  have hmantissa := d.ofDigits_digits
  obtain ⟨sign, power, hne, hpower, htext, hvalue⟩ := exists_exponentText width d.leading
  unfold Layout.exponential
  rw [htext]
  cases hcs : d.digits with
  | nil => exact absurd hcs d.digits_ne_nil
  | cons first rest =>
    rw [hcs] at hdigits hmantissa hleading
    have hfirst : ∀ c ∈ [first], c.isDigit := by
      simpa using hdigits first List.mem_cons_self
    cases rest with
    | nil =>
      have hwrites := writes_exponent [first] (by simp) hfirst none (by simp) sign hne hpower
      have hdecimal := Decimal.trimmed_eq hd (m := ofDigits [first]) (e := d.leading) 0 (by omega)
        (by rw [List.length_singleton] at hleading; omega)
      simpa [hvalue, hdecimal, NumberText.fractionChars] using hwrites
    | cons second others =>
      have hrest : ∀ cs ∈ some (second :: others), ∀ c ∈ cs, c.isDigit := by
        rintro cs ⟨⟩ c hc
        exact hdigits c (List.mem_cons_of_mem _ hc)
      have hwrites := writes_exponent [first] (by simp) hfirst _ hrest sign hne hpower
      have hdecimal := Decimal.trimmed_eq hd (m := ofDigits (first :: second :: others))
        (e := d.leading - (second :: others).length) 0 (by omega)
        (by simp only [List.length_cons] at hleading ⊢; omega)
      simp only [hvalue, Option.getD_some, List.singleton_append, hdecimal] at hwrites
      simpa [NumberText.fractionChars] using hwrites

theorem writes_ofDecimal (layout : Layout) : Writes (layout.ofDecimal d) d := by
  rw [Layout.ofDecimal]
  split
  · exact writes_positional hd
  · exact writes_exponential hd layout.exponentWidth

/-- **The text of a magnitude in a formula denotes it.** -/
theorem exists_magnitudeText :
    ∃ cs, Numeral.magnitudeText d = String.ofList cs ∧ Writes cs d := by
  rw [magnitudeText]
  split
  · rename_i h
    exact ⟨_, Nat.toString_eq_ofList_toDigits, writes_whole hd h.1⟩
  · refine ⟨_, ?_, writes_ofDecimal hd Layout.plain⟩
    rfl

end Layouts

end Formula
