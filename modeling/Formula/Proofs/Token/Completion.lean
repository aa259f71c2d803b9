import Formula.Proofs.Token.Spelling
import Mathlib

/-!
Where the lexer gets stuck.  A scanner looks one character ahead, so that a text which has the same
first character behind what was read is read the same way (`Reads.lex_append`,
`Scan.stalls_number`), and what was read of a number is the text of one, perhaps but for a last
digit.

Main statement: the position of a lexical fault is the length of the longest beginning of the text
that can still be completed to one with tokens (`completable_iff_of_tokenize`).
-/

namespace Formula

/-! ### One character ahead -/

namespace Scan

open NumberText

variable {rest rest' : List Char}

theorem stops_congr {test : Char → Bool} (h : rest'.head? = rest.head?) :
    Stops test rest' ↔ Stops test rest := by
  rw [Stops, Stops, h]

theorem endsNumber_congr (h : rest'.head? = rest.head?) : endsNumber rest' = endsNumber rest := by
  rw [Bool.eq_iff_iff, endsNumber_iff, endsNumber_iff, h]

theorem sign_of_ne {cs : List Char} (hplus : cs.head? ≠ some '+') (hminus : cs.head? ≠ some '-') :
    sign cs = ⟨[], cs⟩ := by
  unfold sign
  split
  · exact absurd rfl hplus
  · exact absurd rfl hminus
  · rfl

theorem sign_congr {cs : List Char} (h : rest'.head? = (sign cs).rest.head?) :
    sign ((sign cs).text ++ rest') = ⟨(sign cs).text, rest'⟩ := by
  by_cases hplus : cs.head? = some '+'
  · obtain ⟨ds, rfl⟩ := List.head?_eq_some_iff.1 hplus
    rfl
  by_cases hminus : cs.head? = some '-'
  · obtain ⟨ds, rfl⟩ := List.head?_eq_some_iff.1 hminus
    rfl
  · rw [sign_of_ne hplus hminus] at h ⊢
    exact sign_of_ne (h ▸ hplus) (h ▸ hminus)

/-! ### Scanners that get stuck -/

/-- A scanner that has read the front of a text gets stuck before the rest, whatever there is that
begins like it, and what it has read is of a form that it takes, perhaps but for some digits. -/
structure Stalls (scan : List Char → Except (List Char) Scan) (form : List Char → Prop)
    (front rest : List Char) : Prop where
  stuck : ∀ rest', rest'.head? = rest.head? → scan (front ++ rest') = .error rest'
  form : ∃ last, (∀ c ∈ last, c.isDigit) ∧ form (front ++ last)

/-- A scanner that hands over behind some text is stuck where the next one is. -/
theorem Stalls.behind {scan scan' : List Char → Except (List Char) Scan}
    {form form' : List Char → Prop} {front read : List Char} (h : Stalls scan form read rest)
    (hscan : ∀ cs, scan' (front ++ cs) = scan cs) (hform : ∀ cs, form cs → form' (front ++ cs)) :
    Stalls scan' form' (front ++ read) rest where
  stuck rest' hrest := by rw [List.append_assoc, hscan, h.stuck rest' hrest]
  form := by
    obtain ⟨last, hlast, hread⟩ := h.form
    refine ⟨last, hlast, ?_⟩
    rw [List.append_assoc]
    exact hform _ hread

/-- The text of an exponent behind its letter. -/
def IsExponent (cs : List Char) : Prop :=
  ∃ s ds, cs = signChars s ++ ds ∧ ds ≠ [] ∧ ∀ c ∈ ds, c.isDigit

/-- The text of a fraction behind the point, with an exponent if there is one. -/
def IsFraction (cs : List Char) : Prop :=
  ∃ ds, (∀ c ∈ ds, c.isDigit) ∧ (cs = ds ∨ ∃ es, IsExponent es ∧ cs = ds ++ ['e'] ++ es)

/-- The text of a number. -/
def IsNumber (cs : List Char) : Prop := ∃ t : NumberText, t.chars = cs

section Digits

variable {ds : List Char} (hds : ∀ c ∈ ds, c.isDigit)

include hds

theorem isNumber_of_digits (hne : ds ≠ []) : IsNumber ds := by
  refine ⟨⟨ds, none, none, hne, hds, ?_, ?_, ?_⟩, List.append_nil ds⟩
  all_goals rintro _ ⟨⟩

theorem isNumber_of_isExponent (hne : ds ≠ []) {es : List Char} (h : IsExponent es) :
    IsNumber (ds ++ ['e'] ++ es) := by
  obtain ⟨s, fs, rfl, hfs, hdigits⟩ := h
  refine ⟨⟨ds, none, some (s, fs), hne, hds, ?_, ?_, ?_⟩, ?_⟩
  · rintro _ ⟨⟩
  · rintro p ⟨⟩
    exact hfs
  · rintro p ⟨⟩
    exact hdigits
  · rw [List.append_assoc]
    rfl

theorem isNumber_of_isFraction (hne : ds ≠ []) {fs : List Char} (h : IsFraction fs) :
    IsNumber (ds ++ ['.'] ++ fs) := by
  rw [List.append_assoc]
  obtain ⟨gs, hgs, rfl | ⟨_, ⟨s, es, rfl, hes, hdigits⟩, rfl⟩⟩ := h
  · refine ⟨⟨ds, some fs, none, hne, hds, ?_, ?_, ?_⟩, ?_⟩
    · rintro _ ⟨⟩
      exact hgs
    · rintro _ ⟨⟩
    · rintro _ ⟨⟩
    · rw [chars, fractionChars, exponentChars, List.append_nil]
      rfl
  · refine ⟨⟨ds, some gs, some (s, es), hne, hds, ?_, ?_, ?_⟩, ?_⟩
    · rintro _ ⟨⟩
      exact hgs
    · rintro p ⟨⟩
      exact hes
    · rintro p ⟨⟩
      exact hdigits
    · rw [List.append_assoc]
      rfl

/-! A scanner hands over at the letter of an exponent and at a point. -/

theorem afterDecimal_letter (taken cs : List Char) :
    afterDecimal taken (ds ++ ['e'] ++ cs) = afterExponent (taken ++ '.' :: ds) cs := by
  have hinteger : integer (ds ++ 'e' :: cs) = ⟨ds, 'e' :: cs⟩ := integer_append hds rfl
  rw [List.append_assoc, List.cons_append, List.nil_append]
  simp only [afterDecimal, afterDecimalBy, hinteger]
  rw [if_neg (not_endsNumber_letter cs), afterExponent]

theorem number_letter (cs : List Char) : number (ds ++ ['e'] ++ cs) = afterExponent ds cs := by
  have hinteger : integer (ds ++ 'e' :: cs) = ⟨ds, 'e' :: cs⟩ := integer_append hds rfl
  rw [List.append_assoc, List.cons_append, List.nil_append]
  simp only [number, numberBy, hinteger]
  rw [if_neg (not_endsNumber_letter cs), afterExponent]

theorem number_point (cs : List Char) : number (ds ++ ['.'] ++ cs) = afterDecimal ds cs := by
  have hinteger : integer (ds ++ '.' :: cs) = ⟨ds, '.' :: cs⟩ := integer_append hds rfl
  rw [List.append_assoc, List.cons_append, List.nil_append]
  simp only [number, numberBy, hinteger]
  rw [if_neg (not_endsNumber_point cs), afterDecimal]

/-! It is stuck behind digits if what follows can neither be read nor end the number. -/

variable (hdigit : NoDigit rest) (hends : ¬ endsNumber rest = true)

include hdigit hends

theorem afterExponent_error (hne : ds ≠ []) (taken : List Char) (s : Option Bool) :
    afterExponent taken (signChars s ++ (ds ++ rest)) = .error rest := by
  simp only [afterExponent, afterExponentBy, sign_append s hne hds, any_isDigit_append hne hds,
    if_true, integer_append hds hdigit]
  rw [if_neg hends]

theorem afterDecimal_error (hletter : rest.head? ≠ some 'e') (taken : List Char) :
    afterDecimal taken (ds ++ rest) = .error rest := by
  simp only [afterDecimal, afterDecimalBy, integer_append hds hdigit]
  rw [if_neg hends]
  split
  · exact absurd rfl hletter
  · rfl

theorem number_error (hletter : rest.head? ≠ some 'e') (hpoint : rest.head? ≠ some '.') :
    number (ds ++ rest) = .error rest := by
  simp only [number, numberBy, integer_append hds hdigit]
  rw [if_neg hends]
  split
  · exact absurd rfl hletter
  · exact absurd rfl hpoint
  · rfl

end Digits

theorem stalls_afterExponent {taken cs : List Char} (h : afterExponent taken cs = .error rest) :
    ∃ read, cs = read ++ rest ∧ Stalls (afterExponent taken) IsExponent read rest := by
  obtain ⟨s, hs⟩ := exists_of_sign cs
  simp only [afterExponent, afterExponentBy] at h
  split at h
  · rename_i hdigit
    have hds := isDigit_of_mem_integer (sign cs).rest
    have hne := integer_text_ne_nil hdigit
    split at h
    · cases h
    · rename_i hends
      cases h
      refine ⟨signChars s ++ (integer (sign cs).rest).text, ?_, ?_, [],
        List.forall_mem_nil _, s, _, ?_, hne, hds⟩
      · rw [List.append_assoc, hs, integer, run_eq, sign_eq]
      · intro rest' hrest
        rw [List.append_assoc]
        exact afterExponent_error hds ((stops_congr hrest).2 (stops_run _ _))
          (endsNumber_congr hrest ▸ hends) hne taken s
      · exact List.append_nil _
  · -- what is missing is the first digit
    rename_i hdigit
    cases h
    refine ⟨signChars s, ?_, ?_, ['0'], by simp, s, ['0'], rfl, by simp, by simp⟩
    · rw [hs, sign_eq]
    · intro rest' hrest
      simp only [hs, afterExponent, afterExponentBy, sign_congr hrest]
      rw [hrest, if_neg hdigit]

/-- A text is digits and something that does not begin with one. -/
theorem exists_digits (cs : List Char) :
    ∃ ds cs', cs = ds ++ cs' ∧ (∀ c ∈ ds, c.isDigit) ∧ NoDigit cs' :=
  ⟨_, _, (run_eq Char.isDigit cs).symm, isDigit_of_mem_integer cs, stops_run _ cs⟩

theorem stalls_afterDecimal {taken cs : List Char} (h : afterDecimal taken cs = .error rest) :
    ∃ read, cs = read ++ rest ∧ Stalls (afterDecimal taken) IsFraction read rest := by
  obtain ⟨ds, cs, rfl, hds, hdigit⟩ := exists_digits cs
  by_cases hletter : cs.head? = some 'e'
  · obtain ⟨es, rfl⟩ := List.head?_eq_some_iff.1 hletter
    rw [List.append_cons, afterDecimal_letter hds] at h
    obtain ⟨read, rfl, hread⟩ := stalls_afterExponent h
    refine ⟨ds ++ ['e'] ++ read, by simp, hread.behind (afterDecimal_letter hds taken) ?_⟩
    exact fun es hes => ⟨ds, hds, .inr ⟨es, hes, rfl⟩⟩
  · by_cases hends : endsNumber cs = true
    · rw [← List.nil_append cs] at h
      have hread :=
        afterDecimal_append hends taken hds (e := none) (by rintro _ ⟨⟩) (by rintro _ ⟨⟩)
      cases hread.symm.trans h
    · cases (afterDecimal_error hds hdigit hends hletter taken).symm.trans h
      refine ⟨ds, rfl, ?_, [], List.forall_mem_nil _, ds, hds, .inl (List.append_nil ds)⟩
      intro rest' hrest
      exact afterDecimal_error hds ((stops_congr hrest).2 hdigit) (endsNumber_congr hrest ▸ hends)
        (hrest ▸ hletter) taken

/-- **A number that cannot be read is stuck where it stops being the beginning of one.** -/
theorem stalls_number {cs : List Char} (hc : cs.head?.any Char.isDigit = true)
    (h : number cs = .error rest) :
    ∃ read, read ≠ [] ∧ cs = read ++ rest ∧ Stalls number IsNumber read rest := by
  have hne := integer_text_ne_nil hc
  obtain ⟨ds, cs, rfl, hds, hdigit⟩ := exists_digits cs
  rw [integer_append hds hdigit] at hne
  by_cases hletter : cs.head? = some 'e'
  · obtain ⟨es, rfl⟩ := List.head?_eq_some_iff.1 hletter
    rw [List.append_cons, number_letter hds] at h
    obtain ⟨read, rfl, hread⟩ := stalls_afterExponent h
    refine ⟨ds ++ ['e'] ++ read, by simp, by simp, hread.behind (number_letter hds) ?_⟩
    exact fun _ => isNumber_of_isExponent hds hne
  by_cases hpoint : cs.head? = some '.'
  · obtain ⟨fs, rfl⟩ := List.head?_eq_some_iff.1 hpoint
    rw [List.append_cons, number_point hds] at h
    obtain ⟨read, rfl, hread⟩ := stalls_afterDecimal h
    refine ⟨ds ++ ['.'] ++ read, by simp, by simp, hread.behind (number_point hds) ?_⟩
    exact fun _ => isNumber_of_isFraction hds hne
  by_cases hends : endsNumber cs = true
  · obtain ⟨t, ht⟩ := isNumber_of_digits hds hne
    rw [← ht] at h
    cases (number_chars hends t).symm.trans h
  · cases (number_error hds hdigit hends hletter hpoint).symm.trans h
    refine ⟨ds, hne, rfl, ?_, [], List.forall_mem_nil _, ?_⟩
    · intro rest' hrest
      exact number_error hds ((stops_congr hrest).2 hdigit) (endsNumber_congr hrest ▸ hends)
        (hrest ▸ hletter) (hrest ▸ hpoint)
    · rw [List.append_nil]
      exact isNumber_of_digits hds hne

end Scan

/-! ### The lexer up to where it gets stuck -/

theorem Token.endsBefore_congr (t : Token) {rest rest' : List Char}
    (h : rest'.head? = rest.head?) : t.EndsBefore rest' ↔ t.EndsBefore rest := by
  rw [EndsBefore, EndsBefore, h]

theorem head?_append_congr {rest rest' : List Char} (front : List Char)
    (h : rest'.head? = rest.head?) : (front ++ rest').head? = (front ++ rest).head? := by
  rw [List.head?_append, List.head?_append, h]

/-- The front of a text is read as the given tokens, whatever there is behind it that begins like
the back of the text. -/
structure Reads (tokens : List Token) (front back : List Char) : Prop where
  spelling : Spelling tokens front
  lex_append : ∀ back', back'.head? = back.head? →
    lex (front ++ back') = (tokens ++ ·) <$> lex back'

namespace Reads

variable {tokens : List Token} {front back : List Char}

theorem nil (back : List Char) : Reads [] [] back :=
  ⟨.nil, fun back' _ => (id_map (lex back')).symm⟩

theorem space (h : Reads tokens front back) : Reads tokens (' ' :: front) back where
  spelling := .space h.spelling
  lex_append back' hback := by rw [List.cons_append, lex_space, h.lex_append back' hback]

theorem token {t : Token} (ht : t.Lexed) (hend : t.EndsBefore (front ++ back))
    (h : Reads tokens front back) : Reads (t :: tokens) (t.text.toList ++ front) back where
  spelling := .token ht hend.of_append h.spelling
  lex_append back' hback := by
    have hend' := (t.endsBefore_congr (head?_append_congr front hback)).2 hend
    rw [List.append_assoc, lex_token ht hend', h.lex_append back' hback, Functor.map_map]
    rfl

end Reads

/-- The characters from where the lexer cannot go on. -/
def Stuck.rest : Stuck → List Char
  | inNumber rest => rest
  | atCharacter _ rest => rest

/-- The lexer gets stuck at the first token of a text. -/
inductive StuckAt : List Char → Stuck → Prop
  | inNumber {c : Char} {cs rest : List Char} (hc : c.isDigit)
      (h : Scan.number (c :: cs) = .error rest) : StuckAt (c :: cs) (.inNumber rest)
  | atCharacter {c : Char} (cs : List Char) (hdigit : ¬ c.isDigit) (halpha : ¬ c.isAlpha)
      (hkind : TokenKind.ofChar? c = none) (hspace : c ≠ ' ') :
      StuckAt (c :: cs) (.atCharacter c (c :: cs))

theorem lex_of_stuckAt {cs : List Char} {stuck : Stuck} (h : StuckAt cs stuck) :
    lex cs = .error stuck := by
  cases h with
  | inNumber hc h =>
    rw [lex, dif_pos hc]
    split
    · rename_i heq
      cases h.symm.trans heq
    · rename_i heq
      cases h.symm.trans heq
      rfl
  | atCharacter cs hdigit halpha hkind hspace =>
    rw [lex, dif_neg hdigit, dif_neg halpha, hkind]
    exact if_neg hspace

/-- **Induction along the lexer.**  A text is empty, begins with a space or with the text of a token
that ends there, or is one that the lexer gets stuck at. -/
theorem lex_induction {P : List Char → Prop} (nil : P []) (space : ∀ cs, P cs → P (' ' :: cs))
    (token : ∀ t cs, Token.Lexed t → t.EndsBefore cs → P cs → P (t.text.toList ++ cs))
    (stuck : ∀ cs place, StuckAt cs place → P cs) (cs : List Char) : P cs := by
  induction cs using lex.induct with
  | case1 => exact nil
  | case2 c cs hc s hscan _ ih =>
    obtain ⟨t, ht⟩ := NumberText.exists_of_number hc hscan
    have hend := endsNumber_iff.1 (endsNumber_of_number hscan)
    have htoken := token _ _ (.number t) hend ih
    rwa [String.toList_ofList, ht, Scan.number_eq hscan] at htoken
  | case3 c cs hc rest hscan => exact stuck _ _ (.inNumber hc hscan)
  | case4 c cs hdigit hc =>
    rename_i ih
    have hend := stops_iff.1 (stops_run Char.isAlphanum (c :: cs))
    have htoken := token _ _ (.identifier (isIdentifier_identifier cs hc)) hend ih
    rwa [String.toList_ofList, Scan.identifier, Scan.run_eq] at htoken
  | case5 c cs hdigit hc kind hkind ih =>
    have hend : Token.EndsBefore ⟨kind, c.toString⟩ cs := by
      rcases symbol_of_ofChar? hkind with ⟨op, -, rfl⟩ | ⟨-, rfl⟩ | ⟨-, rfl⟩ <;> trivial
    have htoken := token _ _ (lexed_of_ofChar? hkind) hend ih
    rwa [Char.toString, String.toList_singleton] at htoken
  | case6 cs hdigit hc hkind ih => exact space cs ih
  | case7 c cs hdigit hc hkind hspace => exact stuck _ _ (.atCharacter cs hdigit hc hkind hspace)

/-- What is read does not help where the lexer gets stuck behind it. -/
theorem Reads.lex_ne_ok {tokens : List Token} {front back back' : List Char} {stuck : Stuck}
    (h : Reads tokens front back) (hback : back'.head? = back.head?) (hstuck : StuckAt back' stuck)
    (ts : List Token) : lex (front ++ back') ≠ .ok ts := by
  rw [h.lex_append back' hback, lex_of_stuckAt hstuck]
  intro hok
  cases hok

/-- A text that cannot be cut into tokens is read up to a token at which the lexer gets stuck. -/
theorem exists_reads {cs : List Char} {stuck : Stuck} (h : lex cs = .error stuck) :
    ∃ tokens front back, cs = front ++ back ∧ Reads tokens front back ∧ StuckAt back stuck := by
  induction cs using lex_induction with
  | nil =>
    rw [lex] at h
    cases h
  | space cs ih =>
    rw [lex_space] at h
    obtain ⟨tokens, front, back, rfl, hreads, hstuck⟩ := ih h
    exact ⟨tokens, ' ' :: front, back, rfl, hreads.space, hstuck⟩
  | token t cs ht hend ih =>
    rw [lex_token ht hend] at h
    obtain ⟨tokens, front, back, rfl, hreads, hstuck⟩ := ih (map_eq_error.1 h)
    exact ⟨_, _, back, (List.append_assoc _ _ _).symm, hreads.token ht hend, hstuck⟩
  | stuck cs _ hstuck =>
    cases (lex_of_stuckAt hstuck).symm.trans h
    exact ⟨[], [], cs, rfl, .nil _, hstuck⟩

/-! ### Completions -/

/-- Something can follow a text so that the whole is cut into tokens. -/
def Completable (cs : List Char) : Prop :=
  ∃ rest tokens, tokenize (String.ofList (cs ++ rest)) = .ok tokens

theorem completable_iff {cs : List Char} : Completable cs ↔
    ∃ rest tokens, balancedFrom 0 (cs ++ rest) = true ∧ lex (cs ++ rest) = .ok tokens := by
  simp only [Completable, tokenize_ok_iff, isBalanced, String.toList_ofList]

theorem Completable.of_append {front back : List Char} (h : Completable (front ++ back)) :
    Completable front := by
  obtain ⟨rest, tokens, htokens⟩ := h
  rw [List.append_assoc] at htokens
  exact ⟨back ++ rest, tokens, htokens⟩

/-- What is open behind the front of a balanced text decides how it may go on. -/
theorem exists_open {depth : Nat} {front back : List Char}
    (h : balancedFrom depth (front ++ back) = true) :
    ∃ n, ∀ rest, balancedFrom depth (front ++ rest) = balancedFrom n rest := by
  induction front generalizing depth with
  | nil => exact ⟨depth, fun _ => rfl⟩
  | cons c front ih =>
    by_cases hopen : c = '('
    · subst hopen
      exact ih h
    by_cases hclose : c = ')'
    · subst hclose
      cases depth with
      | zero => exact absurd h Bool.false_ne_true
      | succ depth => exact ih h
    · rw [List.cons_append, balancedFrom_cons hopen hclose] at h
      obtain ⟨n, hn⟩ := ih h
      refine ⟨n, fun rest => ?_⟩
      rw [List.cons_append, balancedFrom_cons hopen hclose, hn]

theorem balancedFrom_closings (n : Nat) : balancedFrom n (List.replicate n ')') = true := by
  induction n with
  | zero => rfl
  | succ n ih => exact ih

theorem endsNumber_closings (n : Nat) : Scan.endsNumber (List.replicate n ')') = true := by
  cases n <;> rfl

theorem lex_closings (n : Nat) : ∃ tokens, lex (List.replicate n ')') = .ok tokens := by
  induction n with
  | zero => exact ⟨[], by rw [List.replicate_zero, lex]⟩
  | succ n ih =>
    obtain ⟨tokens, htokens⟩ := ih
    exact ⟨_, by rw [List.replicate_succ, lex_closing, htokens]; rfl⟩

/-- The front of a balanced text can be completed if at most digits are missing for it to be one
with tokens: these are put behind it, and then the parentheses that are still open are closed. -/
theorem completable_of_spelling {tokens : List Token} {front back last : List Char}
    (hbalanced : balancedFrom 0 (front ++ back) = true) (hlast : ∀ c ∈ last, c.isDigit)
    (h : Spelling tokens (front ++ last)) : Completable front := by
  obtain ⟨n, hn⟩ := exists_open hbalanced
  obtain ⟨us, hus⟩ := lex_closings n
  refine completable_iff.2 ⟨last ++ List.replicate n ')', tokens ++ us, ?_, ?_⟩
  · have hdigits : ∀ c ∈ last, c ≠ '(' ∧ c ≠ ')' := fun c hc =>
      ne_parenthesis_of_isAlphanum (by simp [Char.isAlphanum, hlast c hc])
    rw [hn, balancedFrom_append hdigits, balancedFrom_closings]
  · rw [← List.append_assoc, h.lex_append (endsNumber_closings n), hus, map_ok]

/-- Where the lexer gets stuck, it has read something that can be completed, and it gets stuck there
whatever follows the character in its way. -/
theorem exists_stuck {cs : List Char} {stuck : Stuck} (hbalanced : balancedFrom 0 cs = true)
    (h : lex cs = .error stuck) : ∃ read, cs = read ++ stuck.rest ∧ Completable read ∧
      ∀ rest, rest.head? = stuck.rest.head? → ∀ tokens, lex (read ++ rest) ≠ .ok tokens := by
  obtain ⟨tokens, front, back, rfl, hreads, hstuck⟩ := exists_reads h
  cases hstuck with
  | @atCharacter c cs hdigit halpha hkind hspace =>
    refine ⟨front, rfl, ?_, ?_⟩
    · have hspelling : Spelling tokens (front ++ []) := by
        rw [List.append_nil]
        exact hreads.spelling
      exact completable_of_spelling hbalanced (List.forall_mem_nil _) hspelling
    · intro rest hrest
      obtain ⟨ds, rfl⟩ := List.head?_eq_some_iff.1 hrest
      exact hreads.lex_ne_ok rfl (.atCharacter ds hdigit halpha hkind hspace)
  | @inNumber c cs rest hc hscan =>
    have hdigit : (c :: cs).head?.any Char.isDigit = true := hc
    obtain ⟨read, hne, hcs, hread⟩ := Scan.stalls_number hdigit hscan
    -- something has been read of the number, so that the tokens before it stay as they are
    have hhead (ds : List Char) : (read ++ ds).head? = (c :: cs).head? := by
      rw [hcs, List.head?_append_of_ne_nil _ hne, List.head?_append_of_ne_nil _ hne]
    refine ⟨front ++ read, ?_, ?_, ?_⟩
    · rw [hcs, List.append_assoc]
      rfl
    · obtain ⟨last, hlast, t, ht⟩ := hread.form
      rw [hcs, ← List.append_assoc] at hbalanced
      have hnumber := (Lexes.number t).lex_append [] rfl
      rw [List.append_nil, ht, lex, map_ok] at hnumber
      have hlex := hreads.lex_append _ (hhead last)
      rw [hnumber, map_ok, ← List.append_assoc] at hlex
      exact completable_of_spelling hbalanced hlast (spelling_of_lex hlex)
    · intro rest' hrest
      obtain ⟨ds, hds⟩ := List.head?_eq_some_iff.1 (hhead rest')
      have hstuck : Scan.number (c :: ds) = .error rest' := hds ▸ hread.stuck rest' hrest
      rw [List.append_assoc, hds]
      exact hreads.lex_ne_ok rfl (.inNumber hc hstuck)

/-- A lexical fault tells where the lexer got stuck. -/
theorem position_of_tokenize {source : String} {f : Fault} (h : tokenize source = .error f)
    (hkind : f.kind = .lexical) : balancedFrom 0 source.toList = true ∧
      ∃ stuck, lex source.toList = .error stuck ∧
        f.position? = some ↑(source.toList.length - stuck.rest.length) := by
  simp only [tokenize] at h
  split at h
  · rename_i hbalanced
    refine ⟨hbalanced, ?_⟩
    split at h
    · cases h
    · rename_i rest hlex
      cases h
      exact ⟨.inNumber rest, hlex, rfl⟩
    · rename_i c rest hlex
      cases h
      exact ⟨.atCharacter c rest, hlex, rfl⟩
  · cases h
    cases hkind

/-- **The position of a lexical fault is the length of the longest beginning of the source that can
still be completed to a text with tokens.** -/
theorem completable_iff_of_tokenize {source : String} {f : Fault}
    (h : tokenize source = .error f) (hkind : f.kind = .lexical) :
    ∃ p : Nat, f.position? = some (p : Int) ∧ p ≤ source.toList.length ∧
      ∀ n ≤ source.toList.length, Completable (source.toList.take n) ↔ n ≤ p := by
  obtain ⟨hbalanced, stuck, hlex, hposition⟩ := position_of_tokenize h hkind
  obtain ⟨read, hcs, hread, hstuck⟩ := exists_stuck hbalanced hlex
  have hp : source.toList.length - stuck.rest.length = read.length := by
    rw [hcs, List.length_append, Nat.add_sub_cancel_right]
  rw [hp] at hposition
  refine ⟨read.length, hposition, ?_, ?_⟩
  · rw [hcs, List.length_append]
    exact Nat.le_add_right _ _
  · intro n hn
    constructor
    · -- a longer beginning holds the character at which the lexer gets stuck
      intro hcompletable
      by_contra hlong
      obtain ⟨k, rfl⟩ : ∃ k, n = read.length + (k + 1) := ⟨n - read.length - 1, by omega⟩
      rw [hcs, List.length_append] at hn
      obtain ⟨c, rest, hrest⟩ := List.exists_cons_of_length_pos (l := stuck.rest) (by omega)
      rw [hcs, List.take_length_add_append, hrest, List.take_succ_cons] at hcompletable
      obtain ⟨back, tokens, -, htokens⟩ := completable_iff.1 hcompletable
      rw [List.append_assoc] at htokens
      exact hstuck _ (by rw [hrest]; rfl) tokens htokens
    · intro hshort
      rw [hcs, List.take_append_of_le_length hshort]
      rw [← List.take_append_drop n read] at hread
      exact hread.of_append

/-- The exponent of a number lacks its digits. -/
theorem completable_iff_openExponent :
    tokenize "(1.5e+x)" = .error (.badNumber "(1.5e+x)" 6) ∧
    Completable "(1.5e+".toList ∧ ¬ Completable "(1.5e+x".toList := by
  have htokens : tokenize "(1.5e+x)" = .error (.badNumber "(1.5e+x)" 6) := by cbv
  obtain ⟨p, hp, -, hcompletable⟩ := completable_iff_of_tokenize htokens rfl
  cases hp
  exact ⟨htokens, (hcompletable 6 (by decide)).2 (by decide),
    fun h => absurd ((hcompletable 7 (by decide)).1 h) (by decide)⟩

end Formula
