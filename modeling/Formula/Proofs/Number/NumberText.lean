import Formula.Proofs.Number.Decimal
import Formula.Token.Scanner

/-!
The texts of numbers in a formula: digits, perhaps a point and a fraction, perhaps an exponent.
Such a text is what the scanner takes for a number (`number_chars`, `exists_of_number`), and it
denotes the decimal that its digits say (`ofString?_chars`).
-/

namespace Formula

/-! ### Runs -/

namespace Scan

/-- No character that passes a test stands at the front. -/
def Stops (test : Char → Bool) (cs : List Char) : Prop := cs.head?.any test = false

/-- A run ends where the text stops passing. -/
theorem run_append {test : Char → Bool} {cs rest : List Char} (hcs : ∀ c ∈ cs, test c)
    (hrest : Stops test rest) : run test (cs ++ rest) = ⟨cs, rest⟩ := by
  rw [run, List.takeWhile_append_of_pos hcs, List.dropWhile_append_of_pos hcs]
  cases rest with
  | nil => rw [List.takeWhile_nil, List.dropWhile_nil, List.append_nil]
  | cons c rest =>
    have hc : ¬ test c := by simpa [Stops] using hrest
    rw [List.takeWhile_cons_of_neg hc, List.dropWhile_cons_of_neg hc, List.append_nil]

/-- What ends a number is an operator, a closing parenthesis or a space. -/
theorem stops_of_endsNumber {test : Char → Bool} (hop : ∀ op : Operator, test op.char = false)
    (hclose : test ')' = false) (hspace : test ' ' = false) {rest : List Char}
    (h : endsNumber rest) : Stops test rest := by
  cases rest with
  | nil => rfl
  | cons c rest =>
    have hc : ((Operator.ofChar? c).isSome = true ∨ c = ')') ∨ c = ' ' := by
      simpa [endsNumber] using h
    rcases hc with (hsome | rfl) | rfl
    · obtain ⟨op, hsome⟩ := Option.isSome_iff_exists.1 hsome
      rw [Operator.ofChar?_eq_some.1 hsome]
      exact hop op
    · exact hclose
    · exact hspace

end Scan

/-! ### The parts of a number -/

/-- The parts of the text of a number. -/
structure NumberText where
  whole : List Char
  /-- The digits after the point, if there is a point. -/
  fraction : Option (List Char)
  /-- The digits of the exponent, if there is one, and whether a sign before them is a minus. -/
  exponent : Option (Option Bool × List Char)
  whole_ne_nil : whole ≠ []
  whole_digits : ∀ c ∈ whole, c.isDigit
  fraction_digits : ∀ cs ∈ fraction, ∀ c ∈ cs, c.isDigit
  exponent_ne_nil : ∀ p ∈ exponent, p.2 ≠ []
  exponent_digits : ∀ p ∈ exponent, ∀ c ∈ p.2, c.isDigit

namespace NumberText

/-- A point and a fraction, if there are any. -/
def fractionChars : Option (List Char) → List Char
  | none => []
  | some cs => '.' :: cs

/-- The sign of an exponent, if it is written. -/
def signChars : Option Bool → List Char
  | none => []
  | some negative => if negative then ['-'] else ['+']

/-- An exponent, if there is one. -/
def exponentChars : Option (Option Bool × List Char) → List Char
  | none => []
  | some (sign, cs) => 'e' :: (signChars sign ++ cs)

/-- The characters of a text. -/
def chars (t : NumberText) : List Char :=
  t.whole ++ (fractionChars t.fraction ++ exponentChars t.exponent)

theorem exists_cons (t : NumberText) : ∃ c cs, t.chars = c :: cs ∧ c.isDigit := by
  cases hw : t.whole with
  | nil => exact absurd hw t.whole_ne_nil
  | cons c cs =>
    have hc := t.whole_digits c (by simp [hw])
    exact ⟨c, _, by rw [chars, hw, List.cons_append], hc⟩

/-- The power of ten that an exponent says. -/
def exponentValue : Option (Option Bool × List Char) → Int
  | none => 0
  | some (sign, cs) =>
    if sign.getD false then -(Numeral.ofDigits cs : Int) else Numeral.ofDigits cs

/-- The decimal that a text denotes. -/
def decimal (t : NumberText) : Decimal :=
  (Decimal.mk (Numeral.ofDigits (t.whole ++ t.fraction.getD []))
    (exponentValue t.exponent - (t.fraction.getD []).length)).trimmed

/-- The literal zero. -/
def zero : NumberText where
  whole := ['0']
  fraction := none
  exponent := none
  whole_ne_nil := List.cons_ne_nil _ _
  whole_digits := by simp
  fraction_digits := nofun
  exponent_ne_nil := nofun
  exponent_digits := nofun

/-! ### Runs of digits -/

/-- A text does not begin with a digit. -/
abbrev NoDigit : List Char → Prop := Scan.Stops Char.isDigit

section Digits

variable {cs rest : List Char} (hcs : ∀ c ∈ cs, c.isDigit) (hrest : NoDigit rest)

include hcs hrest

theorem integer_append : Scan.integer (cs ++ rest) = ⟨cs, rest⟩ := Scan.run_append hcs hrest

theorem splitDigits_append : Numeral.splitDigits (cs ++ rest) = (cs, rest) := by
  have hrun := Scan.run_append hcs hrest
  rw [Scan.run, Scan.mk.injEq] at hrun
  rw [Numeral.splitDigits, hrun.1, hrun.2]

end Digits

theorem any_isDigit_append {cs : List Char} (hne : cs ≠ []) (hcs : ∀ c ∈ cs, c.isDigit)
    (rest : List Char) : (cs ++ rest).head?.any Char.isDigit = true := by
  cases cs with
  | nil => exact absurd rfl hne
  | cons c cs => exact hcs c List.mem_cons_self

/-! ### The scanner -/

theorem noDigit_of_endsNumber {rest : List Char} (h : Scan.endsNumber rest) : NoDigit rest :=
  Scan.stops_of_endsNumber (by intro op; cases op <;> rfl) rfl rfl h

theorem not_endsNumber_point (cs : List Char) : ¬ Scan.endsNumber ('.' :: cs) := by
  simp [Scan.endsNumber, Operator.ofChar?]

theorem not_endsNumber_letter (cs : List Char) : ¬ Scan.endsNumber ('e' :: cs) := by
  simp [Scan.endsNumber, Operator.ofChar?]

theorem noDigit_fractionChars {f : Option (List Char)} {rest : List Char} (h : NoDigit rest) :
    NoDigit (fractionChars f ++ rest) := by
  cases f with
  | none => exact h
  | some cs => rfl

theorem noDigit_exponentChars {e : Option (Option Bool × List Char)} {rest : List Char}
    (h : NoDigit rest) : NoDigit (exponentChars e ++ rest) := by
  cases e with
  | none => exact h
  | some p => rfl

theorem sign_append (sign : Option Bool) {cs : List Char} (hne : cs ≠ [])
    (hcs : ∀ c ∈ cs, c.isDigit) (rest : List Char) :
    Scan.sign (signChars sign ++ (cs ++ rest)) = ⟨signChars sign, cs ++ rest⟩ := by
  cases sign with
  | some negative => cases negative <;> rfl
  | none =>
    cases cs with
    | nil => exact absurd rfl hne
    | cons c cs =>
      have hc := hcs c List.mem_cons_self
      show Scan.sign (c :: (cs ++ rest)) = ⟨[], c :: (cs ++ rest)⟩
      unfold Scan.sign
      split
      · rename_i heq
        rw [(List.cons.inj heq).1] at hc
        exact absurd hc (by decide)
      · rename_i heq
        rw [(List.cons.inj heq).1] at hc
        exact absurd hc (by decide)
      · rfl

section Scanner

variable {rest : List Char} (hrest : Scan.endsNumber rest)

include hrest

theorem afterExponent_append (taken : List Char) (sign : Option Bool) {cs : List Char}
    (hne : cs ≠ []) (hcs : ∀ c ∈ cs, c.isDigit) :
    Scan.afterExponent taken (signChars sign ++ (cs ++ rest)) =
      .ok ⟨taken ++ exponentChars (some (sign, cs)), rest⟩ := by
  simp only [Scan.afterExponent, Scan.afterExponentBy, sign_append sign hne hcs,
    any_isDigit_append hne hcs, if_true, integer_append hcs (noDigit_of_endsNumber hrest), hrest,
    exponentChars, List.append_assoc, List.cons_append]

theorem afterDecimal_append (taken : List Char) {cs : List Char} (hcs : ∀ c ∈ cs, c.isDigit)
    {e : Option (Option Bool × List Char)} (hne : ∀ p ∈ e, p.2 ≠ [])
    (he : ∀ p ∈ e, ∀ c ∈ p.2, c.isDigit) :
    Scan.afterDecimal taken (cs ++ (exponentChars e ++ rest)) =
      .ok ⟨taken ++ (fractionChars (some cs) ++ exponentChars e), rest⟩ := by
  have hdigit := noDigit_exponentChars (e := e) (noDigit_of_endsNumber hrest)
  simp only [Scan.afterDecimal, Scan.afterDecimalBy, integer_append hcs hdigit]
  cases e with
  | none =>
    simp only [exponentChars, List.nil_append, hrest, if_true, fractionChars, List.append_nil]
  | some p =>
    obtain ⟨sign, ds⟩ := p
    have hexponent := afterExponent_append hrest (taken ++ '.' :: cs) sign (hne _ rfl) (he _ rfl)
    rw [Scan.afterExponent] at hexponent
    simp only [exponentChars, List.cons_append, List.append_assoc] at hexponent ⊢
    rw [if_neg (not_endsNumber_letter _), hexponent]
    simp only [fractionChars, List.cons_append]

/-- The scanner takes the text of a number as it stands. -/
theorem number_chars (t : NumberText) : Scan.number (t.chars ++ rest) = .ok ⟨t.chars, rest⟩ := by
  obtain ⟨whole, fraction, exponent, hne, hwhole, hfraction, hene, hexponent⟩ := t
  have hdigit := noDigit_of_endsNumber hrest
  have hinteger := integer_append hwhole
    (noDigit_fractionChars (f := fraction) (noDigit_exponentChars (e := exponent) hdigit))
  simp only [Scan.number, Scan.numberBy, chars, List.append_assoc, hinteger]
  cases fraction with
  | some cs =>
    have hafter := afterDecimal_append hrest whole (hfraction _ rfl) hene hexponent
    rw [Scan.afterDecimal] at hafter
    simp only [fractionChars, List.cons_append] at hafter ⊢
    rw [if_neg (not_endsNumber_point _), hafter]
  | none =>
    cases exponent with
    | none =>
      simp only [fractionChars, exponentChars, List.nil_append, hrest, if_true, List.append_nil]
    | some p =>
      obtain ⟨sign, ds⟩ := p
      have hafter := afterExponent_append hrest whole sign (hene _ rfl) (hexponent _ rfl)
      rw [Scan.afterExponent] at hafter
      simp only [fractionChars, exponentChars, List.nil_append, List.cons_append,
        List.append_assoc] at hafter ⊢
      rw [if_neg (not_endsNumber_letter _), hafter]

end Scanner

/-! ### What the scanner takes -/

theorem isDigit_of_mem_integer (cs : List Char) : ∀ c ∈ (Scan.integer cs).text, c.isDigit :=
  List.all_eq_true.1 List.all_takeWhile

theorem integer_text_ne_nil {cs : List Char} (h : cs.head?.any Char.isDigit = true) :
    (Scan.integer cs).text ≠ [] := by
  cases cs with
  | nil => cases h
  | cons c cs =>
    have hc : c.isDigit = true := h
    simp [Scan.integer, Scan.run, hc]

theorem exists_of_sign (cs : List Char) : ∃ sign, signChars sign = (Scan.sign cs).text := by
  unfold Scan.sign
  split
  · exact ⟨some false, rfl⟩
  · exact ⟨some true, rfl⟩
  · exact ⟨none, rfl⟩

theorem exists_of_afterExponent {taken cs : List Char} {s : Scan}
    (h : Scan.afterExponent taken cs = .ok s) :
    ∃ sign ds, s.text = taken ++ exponentChars (some (sign, ds)) ∧ ds ≠ [] ∧
      ∀ c ∈ ds, c.isDigit := by
  simp only [Scan.afterExponent, Scan.afterExponentBy] at h
  split at h
  · rename_i hhead
    split at h
    · cases h
      obtain ⟨sign, hsign⟩ := exists_of_sign cs
      refine ⟨sign, _, ?_, integer_text_ne_nil hhead, isDigit_of_mem_integer (Scan.sign cs).rest⟩
      simp only [exponentChars, hsign, List.append_assoc, List.cons_append]
    · cases h
  · cases h

theorem exists_of_afterDecimal {taken cs : List Char} {s : Scan}
    (h : Scan.afterDecimal taken cs = .ok s) :
    ∃ ds e, s.text = taken ++ (fractionChars (some ds) ++ exponentChars e) ∧
      (∀ c ∈ ds, c.isDigit) ∧ (∀ p ∈ e, p.2 ≠ []) ∧ ∀ p ∈ e, ∀ c ∈ p.2, c.isDigit := by
  simp only [Scan.afterDecimal, Scan.afterDecimalBy] at h
  split at h
  · cases h
    refine ⟨_, none, ?_, isDigit_of_mem_integer cs, by simp, by simp⟩
    simp only [fractionChars, exponentChars, List.append_nil]
  · split at h
    · obtain ⟨sign, es, htext, hne, hes⟩ := exists_of_afterExponent h
      refine ⟨_, some (sign, es), ?_, isDigit_of_mem_integer cs, ?_, ?_⟩
      · rw [htext]
        simp only [fractionChars, List.append_assoc, List.cons_append]
      · rintro p ⟨⟩
        exact hne
      · rintro p ⟨⟩
        exact hes
    · cases h

/-- What the scanner takes from a digit on is the text of a number. -/
theorem exists_of_number {c : Char} {cs : List Char} {s : Scan} (hc : c.isDigit)
    (h : Scan.number (c :: cs) = .ok s) : ∃ t : NumberText, t.chars = s.text := by
  have hne : (Scan.integer (c :: cs)).text ≠ [] := integer_text_ne_nil hc
  have hwhole := isDigit_of_mem_integer (c :: cs)
  simp only [Scan.number, Scan.numberBy] at h
  split at h
  · cases h
    refine ⟨⟨_, none, none, hne, hwhole, by simp, by simp, by simp⟩, ?_⟩
    simp only [chars, fractionChars, exponentChars, List.append_nil]
  · split at h
    · obtain ⟨sign, es, htext, hes, hdigits⟩ := exists_of_afterExponent h
      refine ⟨⟨_, none, some (sign, es), hne, hwhole, by simp, ?_, ?_⟩, ?_⟩
      · rintro p ⟨⟩
        exact hes
      · rintro p ⟨⟩
        exact hdigits
      · rw [htext]
        rfl
    · obtain ⟨ds, e, htext, hds, hes, hdigits⟩ := exists_of_afterDecimal h
      refine ⟨⟨_, some ds, e, hne, hwhole, ?_, hes, hdigits⟩, htext.symm⟩
      rintro fs ⟨⟩
      exact hds
    · cases h

/-! ### What a text denotes -/

/-- The characters that the texts of numbers are made of. -/
def alphabet : List Char :=
  ['0', '1', '2', '3', '4', '5', '6', '7', '8', '9', '.', 'e', '+', '-']

theorem mem_alphabet_of_isDigit {c : Char} (h : c.isDigit) : c ∈ alphabet := by
  have hall : ∀ n < 58, 48 ≤ n → Char.ofNat n ∈ alphabet := by decide
  obtain ⟨hlow, hhigh⟩ := Char.isDigit_iff_toNat.1 h
  rw [← Char.ofNat_toNat c]
  exact hall c.toNat (Nat.lt_succ_of_le hhigh) hlow

theorem mem_alphabet (t : NumberText) : ∀ c ∈ t.chars, c ∈ alphabet := by
  intro c hc
  simp only [chars, List.mem_append] at hc
  rcases hc with hc | hc | hc
  · exact mem_alphabet_of_isDigit (t.whole_digits c hc)
  · cases hf : t.fraction with
    | none => simp [hf, fractionChars] at hc
    | some cs =>
      rw [hf, fractionChars, List.mem_cons] at hc
      rcases hc with rfl | hc
      · decide
      · exact mem_alphabet_of_isDigit (t.fraction_digits cs hf c hc)
  · cases he : t.exponent with
    | none => simp [he, exponentChars] at hc
    | some p =>
      obtain ⟨sign, ds⟩ := p
      rw [he, exponentChars, List.mem_cons, List.mem_append] at hc
      rcases hc with rfl | hc | hc
      · decide
      · cases sign with
        | none => exact absurd hc List.not_mem_nil
        | some negative => cases negative <;> rw [List.mem_singleton.1 hc] <;> decide
      · exact mem_alphabet_of_isDigit (t.exponent_digits _ he c hc)

/-- A test over the alphabet is a test of its fourteen characters, not of all there are. -/
theorem of_all_alphabet {test : Char → Bool} (h : alphabet.all test = true) {c : Char}
    (hc : c ∈ alphabet) : test c = true := List.all_eq_true.1 h c hc

theorem trimBlanks_eq {cs : List Char} (h : ∀ c ∈ cs, c ∈ alphabet) : Text.trimBlanks cs = cs := by
  have hblank : ∀ c ∈ alphabet, ¬ Text.isBlank c := fun c hc => by
    have hall : alphabet.all (fun c => !Text.isBlank c) = true := by decide
    simpa using of_all_alphabet hall hc
  have hkeep : ∀ ds : List Char, (∀ c ∈ ds, c ∈ alphabet) → ds.dropWhile Text.isBlank = ds := by
    intro ds hds
    cases ds with
    | nil => rfl
    | cons c ds => rw [List.dropWhile_cons_of_neg (hblank c (hds c List.mem_cons_self))]
  rw [Text.trimBlanks, hkeep cs h, hkeep _ (by simpa using h), List.reverse_reverse]

theorem map_toAsciiDigit_eq {cs : List Char} (h : ∀ c ∈ cs, c ∈ alphabet) :
    cs.map Text.toAsciiDigit = cs := by
  have hsame : ∀ c ∈ alphabet, Text.toAsciiDigit c = c := fun c hc => by
    have hall : alphabet.all (fun c => Text.toAsciiDigit c == c) = true := by decide
    simpa using of_all_alphabet hall hc
  exact (List.map_congr_left fun c hc => hsame c (h c hc)).trans (List.map_id cs)

theorem joinDigits?_eq {cs : List Char} (h : ∀ c ∈ cs, c ∈ alphabet) (previous : Char) :
    Numeral.joinDigits? previous cs = some cs := by
  have hplain : '_' ∉ alphabet := by decide
  induction cs generalizing previous with
  | nil => rfl
  | cons c cs ih =>
    have hc : c ≠ '_' := by
      rintro rfl
      exact hplain (h '_' List.mem_cons_self)
    have hcs := ih (fun d hd => h d (List.mem_cons_of_mem _ hd)) c
    rw [Numeral.joinDigits?, hcs, if_neg (by simpa using hc)]
    · rfl
    · rintro d ds rfl
      exact absurd rfl hc

theorem splitSign_of_isDigit {c : Char} (hc : c.isDigit) (cs : List Char) :
    Numeral.splitSign (c :: cs) = (false, c :: cs) := by
  unfold Numeral.splitSign
  split
  · rename_i heq
    rw [(List.cons.inj heq).1] at hc
    exact absurd hc (by decide)
  · rename_i heq
    rw [(List.cons.inj heq).1] at hc
    exact absurd hc (by decide)
  · rfl

theorem splitSign_append (sign : Option Bool) {cs : List Char} (hne : cs ≠ [])
    (hcs : ∀ c ∈ cs, c.isDigit) :
    Numeral.splitSign (signChars sign ++ cs) = (sign.getD false, cs) := by
  cases sign with
  | some negative => cases negative <;> rfl
  | none =>
    cases cs with
    | nil => exact absurd rfl hne
    | cons c cs => exact splitSign_of_isDigit (hcs c List.mem_cons_self) cs

theorem exponent?_exponentChars {e : Option (Option Bool × List Char)} (hne : ∀ p ∈ e, p.2 ≠ [])
    (he : ∀ p ∈ e, ∀ c ∈ p.2, c.isDigit) :
    Numeral.exponent? (exponentChars e) = some (exponentValue e) := by
  cases e with
  | none => rfl
  | some p =>
    obtain ⟨sign, ds⟩ := p
    have hds : ds ≠ [] := hne _ rfl
    have hdigits : ∀ c ∈ ds, c.isDigit := he _ rfl
    have hsplit := splitDigits_append hdigits (show NoDigit [] from rfl)
    rw [List.append_nil] at hsplit
    simp [exponentChars, Numeral.exponent?, splitSign_append sign hds hdigits, hsplit, hds,
      exponentValue]

theorem decimal?_chars (t : NumberText) : Numeral.decimal? t.chars = some t.decimal := by
  obtain ⟨whole, fraction, exponent, hne, hwhole, hfraction, hene, hexponent⟩ := t
  have hpower := exponent?_exponentChars hene hexponent
  have hend : NoDigit (exponentChars exponent) := by
    have := noDigit_exponentChars (e := exponent) (show NoDigit [] from rfl)
    rwa [List.append_nil] at this
  have hsplit := splitDigits_append hwhole (noDigit_fractionChars (f := fraction) hend)
  simp only [chars, Numeral.decimal?, hsplit]
  cases fraction with
  | some cs =>
    have hsplit' := splitDigits_append (hfraction _ rfl) hend
    simp [fractionChars, hsplit', hpower, hne, decimal]
  | none =>
    cases exponent with
    | none => simp [fractionChars, exponentChars, hne, decimal, Numeral.exponent?, exponentValue]
    | some p =>
      obtain ⟨sign, ds⟩ := p
      rw [exponentChars] at hpower
      simp [fractionChars, exponentChars, hpower, hne, decimal]

/-- No word begins with a digit. -/
theorem unsigned?_of_isDigit {c : Char} (hc : c.isDigit) (negative : Bool) (cs : List Char) :
    Numeral.unsigned? negative (c :: cs) =
      (Numeral.decimal? (c :: cs)).map (.finite negative) := by
  have hlower : ∀ d ∈ alphabet, d.toLower ≠ 'i' ∧ d.toLower ≠ 'n' := fun d hd => by
    have hall : alphabet.all (fun d => d.toLower != 'i' && d.toLower != 'n') = true := by decide
    simpa using of_all_alphabet hall hd
  obtain ⟨hi, hn⟩ := hlower c (mem_alphabet_of_isDigit hc)
  have hword : ∀ d ds, c.toLower ≠ d →
      (String.ofList ((c :: cs).map Char.toLower) == String.ofList (d :: ds)) = false := by
    intro d ds hd
    refine beq_eq_false_iff_ne.2 fun h => hd ?_
    exact (List.cons.inj (String.ofList_injective h)).1
  have hinf := hword 'i' ['n', 'f'] hi
  have hinfinity := hword 'i' ['n', 'f', 'i', 'n', 'i', 't', 'y'] hi
  have hnan := hword 'n' ['a', 'n'] hn
  simp only [Numeral.unsigned?]
  rw [if_neg, if_neg]
  · simpa using hnan
  · simpa using And.intro hinf hinfinity

/-- The text of a number denotes its decimal, and with a minus before it the negative one. -/
theorem ofString?_signed (negative : Bool) (t : NumberText) :
    Numeral.ofString? (String.ofList ((if negative then ['-'] else []) ++ t.chars)) =
      some (.finite negative t.decimal) := by
  have hall : ∀ c ∈ (if negative then ['-'] else []) ++ t.chars, c ∈ alphabet := by
    intro c hc
    rcases List.mem_append.1 hc with hc | hc
    · cases negative with
      | true =>
        rw [List.mem_singleton.1 hc]
        decide
      | false => exact absurd hc List.not_mem_nil
    · exact mem_alphabet t c hc
  obtain ⟨c, cs, hchars, hc⟩ := exists_cons t
  have hsign : Numeral.splitSign ((if negative then ['-'] else []) ++ t.chars) =
      (negative, t.chars) := by
    cases negative with
    | true => rfl
    | false =>
      rw [hchars]
      exact splitSign_of_isDigit hc cs
  have hunsigned : Numeral.unsigned? negative t.chars = some (.finite negative t.decimal) := by
    have hdecimal := decimal?_chars t
    rw [hchars] at hdecimal ⊢
    rw [unsigned?_of_isDigit hc, hdecimal]
    rfl
  rw [Numeral.ofString?, String.toList_ofList, trimBlanks_eq hall, map_toAsciiDigit_eq hall,
    joinDigits?_eq hall]
  show Numeral.unsigned? (Numeral.splitSign _).1 (Numeral.splitSign _).2 = _
  rw [hsign]
  exact hunsigned

/-- **The text of a number denotes its decimal.** -/
theorem ofString?_chars (t : NumberText) :
    Numeral.ofString? (String.ofList t.chars) = some (.finite false t.decimal) :=
  ofString?_signed false t

end NumberText

end Formula
