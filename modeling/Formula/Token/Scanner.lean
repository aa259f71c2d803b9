import Formula.Fault
import Formula.Token.Basic

/-!
Scanners: each takes the longest fitting text from the front of a list of characters.  A scan loses
no character, which `number_eq` and its kin say; a scanner that gets stuck answers with the
characters from there on, so that their number gives the position.
-/

namespace Formula

/-- What a scanner took and what it left. -/
structure Scan where
  text : List Char
  rest : List Char
  deriving DecidableEq, Repr

namespace Scan

/-! ### Digits, names and numbers -/

/-- Takes the characters at the front that pass a test. -/
def run (test : Char → Bool) (cs : List Char) : Scan := ⟨cs.takeWhile test, cs.dropWhile test⟩

/-- Takes digits. -/
def integer : List Char → Scan := run Char.isDigit

/-- Takes letters and digits. -/
def identifier : List Char → Scan := run Char.isAlphanum

/-- After a number there is nothing more, or an operator, a closing parenthesis or a space. -/
def endsNumber : List Char → Bool
  | [] => true
  | c :: _ => (Operator.ofChar? c).isSome || c == ')' || c == ' '

/-- Takes a sign if there is one. -/
def sign : List Char → Scan
  | '+' :: cs => ⟨['+'], cs⟩
  | '-' :: cs => ⟨['-'], cs⟩
  | cs => ⟨[], cs⟩

section

variable (digits : List Char → Scan)

/-- Takes an optional sign and at least one digit, after the letter of the exponent. -/
def afterExponentBy (taken cs : List Char) : Except (List Char) Scan :=
  let sign := sign cs
  if sign.rest.head?.any Char.isDigit then
    let power := digits sign.rest
    if endsNumber power.rest then .ok ⟨taken ++ 'e' :: sign.text ++ power.text, power.rest⟩
    else .error power.rest
  else .error sign.rest

/-- Takes any digits and an optional exponent, after the decimal point. -/
def afterDecimalBy (taken cs : List Char) : Except (List Char) Scan :=
  let fraction := digits cs
  let taken := taken ++ '.' :: fraction.text
  if endsNumber fraction.rest then .ok ⟨taken, fraction.rest⟩
  else match fraction.rest with
    | 'e' :: rest => afterExponentBy digits taken rest
    | rest => .error rest

/-- Takes a number, its digits by the given scanner: digits, an optional fraction and an optional
exponent. -/
def numberBy (cs : List Char) : Except (List Char) Scan :=
  let whole := digits cs
  if endsNumber whole.rest then .ok whole
  else match whole.rest with
    | 'e' :: rest => afterExponentBy digits whole.text rest
    | '.' :: rest => afterDecimalBy digits whole.text rest
    | rest => .error rest

end

/-- The end of a number from its exponent on. -/
def afterExponent : List Char → List Char → Except (List Char) Scan := afterExponentBy integer

/-- The end of a number from its fraction on. -/
def afterDecimal : List Char → List Char → Except (List Char) Scan := afterDecimalBy integer

/-- Takes a number. -/
def number : List Char → Except (List Char) Scan := numberBy integer

/-! ### Nothing is lost -/

@[simp] theorem run_eq (test : Char → Bool) (cs : List Char) :
    (run test cs).text ++ (run test cs).rest = cs := List.takeWhile_append_dropWhile

theorem sign_eq (cs : List Char) : (sign cs).text ++ (sign cs).rest = cs := by
  unfold sign
  split <;> rfl

theorem afterExponent_eq {taken cs : List Char} {s : Scan} (h : afterExponent taken cs = .ok s) :
    taken ++ 'e' :: cs = s.text ++ s.rest := by
  simp only [afterExponent, afterExponentBy] at h
  split at h
  · split at h
    · cases h
      simp only [List.append_assoc, List.cons_append, integer, run_eq, sign_eq]
    · cases h
  · cases h

theorem afterDecimal_eq {taken cs : List Char} {s : Scan} (h : afterDecimal taken cs = .ok s) :
    taken ++ '.' :: cs = s.text ++ s.rest := by
  have hcs : cs = (integer cs).text ++ (integer cs).rest := (run_eq _ cs).symm
  simp only [afterDecimal, afterDecimalBy] at h
  split at h
  · cases h
    simp only [List.append_assoc, List.cons_append]
    rw [← hcs]
  · split at h
    · rename_i rest hrest
      rw [← afterExponent_eq h, List.append_assoc, List.cons_append, ← hrest, ← hcs]
    · cases h

theorem number_eq {cs : List Char} {s : Scan} (h : number cs = .ok s) : s.text ++ s.rest = cs := by
  have hcs : (integer cs).text ++ (integer cs).rest = cs := run_eq _ cs
  simp only [number, numberBy] at h
  split at h
  · cases h
    exact hcs
  · split at h
    · rename_i rest hrest
      rw [← afterExponent_eq h, ← hrest, hcs]
    · rename_i rest hrest
      rw [← afterDecimal_eq h, ← hrest, hcs]
    · cases h

/-! ### What is left is shorter -/

theorem afterExponent_text_ne_nil {taken cs : List Char} {s : Scan}
    (h : afterExponent taken cs = .ok s) : s.text ≠ [] := by
  simp only [afterExponent, afterExponentBy] at h
  split at h
  · split at h
    · cases h
      simp
    · cases h
  · cases h

theorem afterDecimal_text_ne_nil {taken cs : List Char} {s : Scan}
    (h : afterDecimal taken cs = .ok s) : s.text ≠ [] := by
  simp only [afterDecimal, afterDecimalBy] at h
  split at h
  · cases h
    simp
  · split at h
    · exact afterExponent_text_ne_nil h
    · cases h

theorem number_text_ne_nil {c : Char} {cs : List Char} {s : Scan} (hc : c.isDigit)
    (h : number (c :: cs) = .ok s) : s.text ≠ [] := by
  simp only [number, numberBy] at h
  split at h
  · cases h
    simp [integer, run, hc]
  · split at h
    · exact afterExponent_text_ne_nil h
    · exact afterDecimal_text_ne_nil h
    · cases h

theorem number_rest_length {c : Char} {cs : List Char} {s : Scan} (hc : c.isDigit)
    (h : number (c :: cs) = .ok s) : s.rest.length < (c :: cs).length := by
  have := List.length_pos_iff.2 (number_text_ne_nil hc h)
  rw [← number_eq h, List.length_append]
  omega

theorem identifier_rest_length {c : Char} (cs : List Char) (hc : c.isAlphanum) :
    (identifier (c :: cs)).rest.length < (c :: cs).length := by
  simp only [identifier, run, List.dropWhile_cons, hc, if_true, List.length_cons]
  exact Nat.lt_succ_of_le (List.dropWhile_sublist _).length_le

end Scan

end Formula
