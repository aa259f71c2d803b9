import Formula.Proofs.Result
import Formula.Proofs.Token.Lexing
import Mathlib.Data.List.Infix

/-!
What the tokens of a text are, without the lexer.  A spelling of tokens is a text that consists of
theirs in order, with spaces anywhere between them, such that no name and no number goes on behind
its text (`Spelling`).  A text is the spelling of at most one token list, and of which one is what
the lexer finds out (`lex_eq_ok_iff`).

Main statement: cutting a text into tokens succeeds exactly on the spellings with balanced
parentheses (`tokenize_eq_ok_iff`).
-/

namespace Formula

/-! ### Balanced parentheses -/

/-- The text has as many closing parentheses as opening ones, and nowhere has it more. -/
def Balances (cs : List Char) : Prop :=
  (∀ front ∈ cs.inits, front.count ')' ≤ front.count '(') ∧ cs.count ')' = cs.count '('

instance (cs : List Char) : Decidable (Balances cs) := inferInstanceAs (Decidable (_ ∧ _))

theorem balancedFrom_iff (depth : Nat) (cs : List Char) :
    balancedFrom depth cs = true ↔
      (∀ front ∈ cs.inits, front.count ')' ≤ depth + front.count '(') ∧
        cs.count ')' = depth + cs.count '(' := by
  induction cs generalizing depth with
  | nil =>
    have hswap : depth = 0 ↔ 0 = depth := eq_comm
    simpa [balancedFrom] using hswap
  | cons c cs ih =>
    simp only [List.inits_cons, List.forall_mem_cons, List.forall_mem_map]
    by_cases hopen : c = '('
    · subst hopen
      rw [balancedFrom, ih]
      simp [Nat.add_right_comm depth 1, ← Nat.add_assoc]
    by_cases hclose : c = ')'
    · subst hclose
      cases depth with
      | zero =>
        -- the one parenthesis is already a beginning with too many
        have hbegins : [] ∈ cs.inits := (List.mem_inits _ _).2 List.nil_prefix
        refine iff_of_false Bool.false_ne_true fun h => ?_
        have := h.1.2 [] hbegins
        simp at this
      | succ depth =>
        rw [balancedFrom, ih]
        simp [Nat.add_right_comm]
    · rw [balancedFrom_cons hopen hclose, ih]
      simp [hopen, hclose]

theorem isBalanced_iff (source : String) : isBalanced source = true ↔ Balances source.toList := by
  rw [isBalanced, balancedFrom_iff, Balances]
  simp only [Nat.zero_add]

/-! ### Spellings -/

/-- The text of a token ends where the rest begins: a name is not followed by a letter or digit, and
a number by nothing but an operator, a closing parenthesis or a space. -/
def Token.EndsBefore (t : Token) (rest : List Char) : Prop :=
  match t.kind with
  | .identifier => ∀ c ∈ rest.head?, ¬ c.isAlphanum
  | .number => ∀ c ∈ rest.head?, (∃ op : Operator, c = op.char) ∨ c = ')' ∨ c = ' '
  | _ => True

/-- The text consists of the texts of the tokens in order, each of its kind and ending where it
does, and of spaces between them. -/
inductive Spelling : List Token → List Char → Prop
  | nil : Spelling [] []
  | space {ts : List Token} {cs : List Char} (h : Spelling ts cs) : Spelling ts (' ' :: cs)
  | token {t : Token} {ts : List Token} {cs : List Char} (ht : t.Lexed) (hend : t.EndsBefore cs)
      (h : Spelling ts cs) : Spelling (t :: ts) (t.text.toList ++ cs)

theorem endsNumber_iff {rest : List Char} : Scan.endsNumber rest = true ↔
    ∀ c ∈ rest.head?, (∃ op : Operator, c = op.char) ∨ c = ')' ∨ c = ' ' := by
  cases rest with
  | nil => simp [Scan.endsNumber]
  | cons c rest =>
    have hop : (Operator.ofChar? c).isSome = true ↔ ∃ op : Operator, c = op.char := by
      simp only [Option.isSome_iff_exists, Operator.ofChar?_eq_some]
    simp [Scan.endsNumber, hop, or_assoc]

theorem stops_iff {test : Char → Bool} {rest : List Char} :
    Scan.Stops test rest ↔ ∀ c ∈ rest.head?, ¬ test c := by
  cases rest <;> simp [Scan.Stops]

/-- What may end a number may end every token. -/
theorem Token.endsBefore_of_endsNumber (t : Token) {rest : List Char} (h : Scan.endsNumber rest) :
    t.EndsBefore rest := by
  unfold Token.EndsBefore
  split
  · exact stops_iff.1 (Scan.stops_of_endsNumber (by intro op; cases op <;> rfl) rfl rfl h)
  · exact endsNumber_iff.1 h
  · trivial

/-- A token that ends where a text begins also ends there when more follows, if anything may. -/
theorem Token.EndsBefore.append {t : Token} {cs rest : List Char} (h : t.EndsBefore cs)
    (hrest : Scan.endsNumber rest) : t.EndsBefore (cs ++ rest) := by
  cases cs with
  | nil => exact t.endsBefore_of_endsNumber hrest
  | cons c cs => exact h

theorem Token.EndsBefore.of_append {t : Token} {cs rest : List Char}
    (h : t.EndsBefore (cs ++ rest)) : t.EndsBefore cs := by
  cases cs with
  | nil => exact t.endsBefore_of_endsNumber rfl
  | cons c cs => exact h

/-- A text can be cut at each of its tokens. -/
theorem Spelling.cut {before after : List Token} {t : Token} {cs : List Char}
    (h : Spelling (before ++ t :: after) cs) :
    ∃ front back, cs = front ++ (t.text.toList ++ back) ∧ Spelling before front ∧
      Spelling after back := by
  generalize hts : before ++ t :: after = ts at h
  induction h generalizing before with
  | nil => simp at hts
  | space _ ih =>
    obtain ⟨front, back, rfl, hfront, hback⟩ := ih hts
    exact ⟨' ' :: front, back, rfl, .space hfront, hback⟩
  | @token u us cs hu hend hus ih =>
    cases before with
    | nil =>
      obtain ⟨rfl, rfl⟩ := List.cons.inj hts
      exact ⟨[], cs, rfl, .nil, hus⟩
    | cons v before =>
      obtain ⟨rfl, hrest⟩ := List.cons.inj hts
      obtain ⟨front, back, rfl, hfront, hback⟩ := ih hrest
      refine ⟨v.text.toList ++ front, back, (List.append_assoc _ _ _).symm, ?_, hback⟩
      exact .token hu hend.of_append hfront

/-! ### The lexer reads spellings -/

/-- The lexer takes a token off the front of a text. -/
theorem lex_token {t : Token} {rest : List Char} (ht : t.Lexed) (hend : t.EndsBefore rest) :
    lex (t.text.toList ++ rest) = (t :: ·) <$> lex rest := by
  cases ht with
  | number s =>
    have := (Lexes.number s).lex_append rest (endsNumber_iff.2 hend)
    rw [String.toList_ofList, this]
    rfl
  | identifier h => exact lex_name h (stops_iff.2 hend)
  | operator op =>
    rw [Token.ofOperator, toList_symbol]
    exact lex_operator rest op
  | opening => exact lex_opening rest
  | closing => exact lex_closing rest

theorem lex_space (cs : List Char) : lex (' ' :: cs) = lex cs := by
  have hkind : TokenKind.ofChar? ' ' = none := rfl
  rw [lex, dif_neg (by decide), dif_neg (by decide), hkind]
  rfl

/-- The lexer reads a spelling, and then what follows it. -/
theorem Spelling.lex_append {ts : List Token} {cs : List Char} (h : Spelling ts cs)
    {rest : List Char} (hrest : Scan.endsNumber rest) :
    lex (cs ++ rest) = (ts ++ ·) <$> lex rest := by
  induction h with
  | nil => exact (id_map (lex rest)).symm
  | space _ ih => rw [List.cons_append, lex_space, ih]
  | token ht hend _ ih =>
    rw [List.append_assoc, lex_token ht (hend.append hrest), ih, Functor.map_map]
    rfl

theorem lex_of_spelling {ts : List Token} {cs : List Char} (h : Spelling ts cs) :
    lex cs = .ok ts := by
  have hlex : lex (cs ++ []) = (ts ++ ·) <$> lex [] := h.lex_append rfl
  rw [List.append_nil, lex] at hlex
  rw [hlex, map_ok, List.append_nil]

/-! ### What the lexer reads is a spelling -/

theorem endsNumber_of_afterExponent {taken cs : List Char} {s : Scan}
    (h : Scan.afterExponent taken cs = .ok s) : Scan.endsNumber s.rest := by
  simp only [Scan.afterExponent, Scan.afterExponentBy] at h
  split at h
  · split at h
    · rename_i hends
      cases h
      exact hends
    · cases h
  · cases h

theorem endsNumber_of_afterDecimal {taken cs : List Char} {s : Scan}
    (h : Scan.afterDecimal taken cs = .ok s) : Scan.endsNumber s.rest := by
  simp only [Scan.afterDecimal, Scan.afterDecimalBy] at h
  split at h
  · rename_i hends
    cases h
    exact hends
  · split at h
    · exact endsNumber_of_afterExponent h
    · cases h

/-- The scanner stops only where a number may end. -/
theorem endsNumber_of_number {cs : List Char} {s : Scan} (h : Scan.number cs = .ok s) :
    Scan.endsNumber s.rest := by
  simp only [Scan.number, Scan.numberBy] at h
  split at h
  · rename_i hends
    cases h
    exact hends
  · split at h
    · exact endsNumber_of_afterExponent h
    · exact endsNumber_of_afterDecimal h
    · cases h

/-- A run goes on as long as it can. -/
theorem stops_run (test : Char → Bool) (cs : List Char) :
    Scan.Stops test (Scan.run test cs).rest := by
  rw [stops_iff]
  intro c hc
  have hhead := List.head?_dropWhile_not (p := test) (l := cs)
  simp only [Scan.run] at hc
  rw [hc] at hhead
  simpa using hhead

theorem spelling_of_lex {cs : List Char} {ts : List Token} (h : lex cs = .ok ts) :
    Spelling ts cs := by
  induction cs using lex.induct generalizing ts with
  | case1 =>
    rw [lex] at h
    cases h
    exact .nil
  | case2 c cs hc s hscan _ ih =>
    rw [lex_number hc hscan] at h
    obtain ⟨us, hus, rfl⟩ := exists_of_map_cons h
    obtain ⟨t, ht⟩ := NumberText.exists_of_number hc hscan
    have hend := endsNumber_iff.1 (endsNumber_of_number hscan)
    have htoken := Spelling.token (.number t) hend (ih hus)
    rwa [String.toList_ofList, ht, Scan.number_eq hscan] at htoken
  | case3 c cs hc rest hscan =>
    rw [lex, dif_pos hc] at h
    split at h
    · rename_i heq
      cases hscan.symm.trans heq
    · cases h
  | case4 c cs hdigit hc =>
    rename_i ih
    rw [lex_identifier cs hc] at h
    obtain ⟨us, hus, rfl⟩ := exists_of_map_cons h
    have hend := stops_iff.1 (stops_run Char.isAlphanum (c :: cs))
    have htoken := Spelling.token (.identifier (isIdentifier_identifier cs hc)) hend (ih hus)
    rwa [String.toList_ofList, Scan.identifier, Scan.run_eq] at htoken
  | case5 c cs hdigit hc kind hkind ih =>
    rw [lex_symbol cs hdigit hc hkind] at h
    obtain ⟨us, hus, rfl⟩ := exists_of_map_cons h
    have hend : Token.EndsBefore ⟨kind, c.toString⟩ cs := by
      rcases symbol_of_ofChar? hkind with ⟨op, -, rfl⟩ | ⟨-, rfl⟩ | ⟨-, rfl⟩ <;> trivial
    have htoken := Spelling.token (lexed_of_ofChar? hkind) hend (ih hus)
    rwa [Char.toString, String.toList_singleton] at htoken
  | case6 cs hdigit hc hkind ih =>
    rw [lex_space] at h
    exact .space (ih h)
  | case7 c cs hdigit hc hkind hspace =>
    rw [lex, dif_neg hdigit, dif_neg hc, hkind] at h
    simp only [if_neg hspace] at h
    cases h

/-- **The lexer finds the tokens that a text is a spelling of**, and there is one such list at
most. -/
theorem lex_eq_ok_iff {cs : List Char} {ts : List Token} : lex cs = .ok ts ↔ Spelling ts cs :=
  ⟨spelling_of_lex, lex_of_spelling⟩

/-! ### Cutting a text -/

section Tokenize

variable {source : String}

theorem tokenize_ok_iff_spelling {tokens : List Token} : tokenize source = .ok tokens ↔
    Balances source.toList ∧ Spelling tokens source.toList := by
  rw [tokenize_ok_iff, isBalanced_iff, lex_eq_ok_iff]

theorem tokenize_of_not_balances (h : ¬ Balances source.toList) :
    tokenize source = .error (.unbalanced source) := by
  rw [← isBalanced_iff] at h
  simp only [tokenize]
  rw [if_neg h]

theorem exists_tokenize_error (h : Balances source.toList)
    (hnone : ∀ tokens, ¬ Spelling tokens source.toList) :
    ∃ f, tokenize source = .error f ∧ f.kind = .lexical := by
  rw [← isBalanced_iff] at h
  simp only [tokenize]
  rw [if_pos h]
  cases hlex : lex source.toList with
  | ok tokens => exact absurd (spelling_of_lex hlex) (hnone tokens)
  | error stuck => cases stuck <;> exact ⟨_, rfl, rfl⟩

end Tokenize

/-- **A text is cut into tokens exactly if its parentheses balance and it is a spelling of them.**
Where the parentheses do not balance, that is the fault; any other text is faulty where the lexer
gets stuck. -/
theorem tokenize_eq_ok_iff (source : String) :
    (∀ tokens, tokenize source = .ok tokens ↔
      Balances source.toList ∧ Spelling tokens source.toList) ∧
    (tokenize source = .error (.unbalanced source) ↔ ¬ Balances source.toList) ∧
    ((∃ f, tokenize source = .error f ∧ f.kind = .lexical) ↔
      Balances source.toList ∧ ∀ tokens, ¬ Spelling tokens source.toList) := by
  by_cases hbalances : Balances source.toList
  · by_cases hspelling : ∃ tokens, Spelling tokens source.toList
    · obtain ⟨tokens, htokens⟩ := hspelling
      have hok := tokenize_ok_iff_spelling.2 ⟨hbalances, htokens⟩
      refine ⟨fun _ => tokenize_ok_iff_spelling, ?_, ?_⟩
      · simp [hok, hbalances]
      · simp only [hok, reduceCtorEq, false_and, exists_false, false_iff]
        exact fun h => h.2 tokens htokens
    · have hnone : ∀ tokens, ¬ Spelling tokens source.toList := not_exists.1 hspelling
      obtain ⟨f, hf, hkind⟩ := exists_tokenize_error hbalances hnone
      refine ⟨fun _ => tokenize_ok_iff_spelling, ?_, ?_⟩
      · have hfault : f ≠ .unbalanced source := by
          rintro rfl
          cases hkind
        simp [hf, hfault, hbalances]
      · exact iff_of_true ⟨f, hf, hkind⟩ ⟨hbalances, hnone⟩
  · have herror := tokenize_of_not_balances hbalances
    refine ⟨fun _ => tokenize_ok_iff_spelling, ?_, ?_⟩ <;> simp [herror, hbalances, Fault.kind]

end Formula
