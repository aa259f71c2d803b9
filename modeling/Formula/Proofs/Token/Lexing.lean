import Formula.Proofs.Grammar.Phrase
import Formula.Proofs.Number.NumberText

/-!
The lexer and the texts that are put together from numbers, names, operators and parentheses.  Such
a text has the tokens of its parts wherever it stands before something that ends a number
(`Lexes`), and conversely every token comes from such a part (`lexed_of_lex`).
-/

namespace Formula

/-- A letter, and letters and digits after it. -/
def isIdentifier (x : String) : Bool :=
  match x.toList with
  | [] => false
  | c :: cs => c.isAlpha && cs.all Char.isAlphanum

/-- An identifier that names no function: what a variable can be called. -/
def isName (x : String) : Bool := isIdentifier x && !isFunctionName x

/-! ### The steps of the lexer -/

theorem not_isDigit_of_isAlpha {c : Char} (hc : c.isAlpha) : ¬ c.isDigit := by
  intro hdigit
  obtain ⟨hlow, hhigh⟩ := Char.isDigit_iff_toNat.1 hdigit
  have hall : ∀ n < 58, 48 ≤ n → ¬ (Char.ofNat n).isAlpha := by decide
  rw [← Char.ofNat_toNat c] at hc
  exact hall c.toNat (Nat.lt_succ_of_le hhigh) hlow hc

section Steps

variable {c : Char} (cs : List Char)

theorem lex_number {cs : List Char} {s : Scan} (hc : c.isDigit)
    (h : Scan.number (c :: cs) = .ok s) :
    lex (c :: cs) = (⟨.number, String.ofList s.text⟩ :: ·) <$> lex s.rest := by
  rw [lex, dif_pos hc]
  split
  · rename_i heq
    cases h.symm.trans heq
    rfl
  · rename_i heq
    cases h.symm.trans heq

theorem lex_identifier (hc : c.isAlpha) :
    lex (c :: cs) = (⟨.identifier, String.ofList (Scan.identifier (c :: cs)).text⟩ :: ·) <$>
      lex (Scan.identifier (c :: cs)).rest := by
  rw [lex, dif_neg (not_isDigit_of_isAlpha hc), dif_pos hc]

theorem lex_symbol {kind : TokenKind} (hdigit : ¬ c.isDigit) (halpha : ¬ c.isAlpha)
    (h : TokenKind.ofChar? c = some kind) :
    lex (c :: cs) = (⟨kind, c.toString⟩ :: ·) <$> lex cs := by
  rw [lex, dif_neg hdigit, dif_neg halpha, h]

theorem toList_symbol (op : Operator) : op.symbol.toList = [op.char] := by
  cases op <;> rfl

theorem ofOperator_eq (op : Operator) : Token.ofOperator op = ⟨.operator, op.char.toString⟩ := by
  cases op <;> rfl

theorem lex_operator (op : Operator) :
    lex (op.char :: cs) = (Token.ofOperator op :: ·) <$> lex cs := by
  rw [ofOperator_eq]
  cases op <;> exact lex_symbol cs (by decide) (by decide) rfl

theorem lex_opening : lex ('(' :: cs) = (Token.opening :: ·) <$> lex cs :=
  lex_symbol cs (by decide) (by decide) rfl

theorem lex_closing : lex (')' :: cs) = (Token.closing :: ·) <$> lex cs :=
  lex_symbol cs (by decide) (by decide) rfl

end Steps

/-- A text is cut into the tokens that the lexer finds, if its parentheses balance. -/
theorem tokenize_ok_iff {source : String} {tokens : List Token} :
    tokenize source = .ok tokens ↔ isBalanced source = true ∧ lex source.toList = .ok tokens := by
  simp only [tokenize]
  split
  · rename_i hbalanced
    cases lex source.toList with
    | ok ts => simp [hbalanced]
    | error stuck => cases stuck <;> simp
  · rename_i hbalanced
    simp [hbalanced]

/-! ### Texts and their tokens -/

/-- A text has the given tokens wherever a number may end after it, and leaves open no more and no
fewer parentheses than there were before it. -/
structure Lexes (cs : List Char) (ts : List Token) : Prop where
  lex_append : ∀ rest, Scan.endsNumber rest → lex (cs ++ rest) = (ts ++ ·) <$> lex rest
  balanced_append : ∀ depth rest, balancedFrom depth (cs ++ rest) = balancedFrom depth rest

theorem balancedFrom_cons {c : Char} (hopen : c ≠ '(') (hclose : c ≠ ')') (depth : Nat)
    (cs : List Char) : balancedFrom depth (c :: cs) = balancedFrom depth cs := by
  rw [balancedFrom]
  · exact hopen
  · exact fun _ => hclose
  · exact fun _ _ => hclose

theorem balancedFrom_append {cs : List Char} (h : ∀ c ∈ cs, c ≠ '(' ∧ c ≠ ')') (depth : Nat)
    (rest : List Char) : balancedFrom depth (cs ++ rest) = balancedFrom depth rest := by
  induction cs with
  | nil => rfl
  | cons c cs ih =>
    obtain ⟨hopen, hclose⟩ := h c List.mem_cons_self
    rw [List.cons_append, balancedFrom_cons hopen hclose,
      ih fun d hd => h d (List.mem_cons_of_mem c hd)]

theorem balancedFrom_operator (op : Operator) (depth : Nat) (cs : List Char) :
    balancedFrom depth (op.char :: cs) = balancedFrom depth cs := by
  cases op <;> exact balancedFrom_cons (by decide) (by decide) depth cs

theorem endsNumber_operator (op : Operator) (cs : List Char) :
    Scan.endsNumber (op.char :: cs) := by
  simp [Scan.endsNumber]

theorem toList_identifier {x : String} (h : isIdentifier x) :
    ∃ c cs, x.toList = c :: cs ∧ c.isAlpha ∧ ∀ d ∈ c :: cs, d.isAlphanum := by
  unfold isIdentifier at h
  split at h
  · cases h
  · rename_i c cs hx
    obtain ⟨hc, hcs⟩ := Bool.and_eq_true_iff.1 h
    refine ⟨c, cs, hx, hc, ?_⟩
    intro d hd
    rcases List.mem_cons.1 hd with rfl | hd
    · simp [Char.isAlphanum, hc]
    · exact List.all_eq_true.1 hcs d hd

/-- A name is taken up to the first character that is no letter and no digit. -/
theorem lex_name {x : String} (h : isIdentifier x) {rest : List Char}
    (hrest : Scan.Stops Char.isAlphanum rest) :
    lex (x.toList ++ rest) = (⟨.identifier, x⟩ :: ·) <$> lex rest := by
  obtain ⟨c, cs, hx, hc, hcs⟩ := toList_identifier h
  have hscan : Scan.identifier (c :: (cs ++ rest)) = ⟨c :: cs, rest⟩ := Scan.run_append hcs hrest
  have htext : String.ofList (c :: cs) = x := by rw [← hx, String.ofList_toList]
  rw [hx, List.cons_append, lex_identifier _ hc, hscan]
  simp only [htext]

theorem ne_parenthesis_of_isAlphanum {c : Char} (h : c.isAlphanum) : c ≠ '(' ∧ c ≠ ')' := by
  constructor <;>
  · rintro rfl
    revert h
    decide

theorem balancedFrom_name {x : String} (h : isIdentifier x) (depth : Nat) (rest : List Char) :
    balancedFrom depth (x.toList ++ rest) = balancedFrom depth rest := by
  obtain ⟨c, cs, hx, -, hcs⟩ := toList_identifier h
  rw [hx]
  exact balancedFrom_append (fun d hd => ne_parenthesis_of_isAlphanum (hcs d hd)) depth rest

theorem isIdentifier_func (f : Func) : isIdentifier f.symbol := by
  cases f <;> rfl

namespace Lexes

variable {cs ds : List Char} {ts us : List Token}

theorem number (t : NumberText) : Lexes t.chars [⟨.number, String.ofList t.chars⟩] where
  lex_append rest hrest := by
    obtain ⟨c, cs, hchars, hc⟩ := t.exists_cons
    have hscan := NumberText.number_chars hrest t
    rw [hchars, List.cons_append] at hscan
    rw [hchars, List.cons_append, lex_number hc hscan]
    rfl
  balanced_append := by
    have hparen : '(' ∉ NumberText.alphabet ∧ ')' ∉ NumberText.alphabet := by decide
    refine balancedFrom_append fun c hc => ⟨?_, ?_⟩
    · rintro rfl
      exact hparen.1 (t.mem_alphabet _ hc)
    · rintro rfl
      exact hparen.2 (t.mem_alphabet _ hc)

theorem var {x : String} (h : isIdentifier x) : Lexes x.toList [⟨.identifier, x⟩] where
  lex_append rest hrest :=
    lex_name h (Scan.stops_of_endsNumber (by intro op; cases op <;> rfl) rfl rfl hrest)
  balanced_append := balancedFrom_name h

/-- An operator before a text. -/
theorem sign (op : Operator) (h : Lexes cs ts) :
    Lexes (op.char :: cs) (Token.ofOperator op :: ts) where
  lex_append rest hrest := by
    rw [List.cons_append, lex_operator, h.lex_append rest hrest, Functor.map_map]
    rfl
  balanced_append depth rest := by
    rw [List.cons_append, balancedFrom_operator, h.balanced_append]

/-- An operator between two texts. -/
theorem join (op : Operator) (h : Lexes cs ts) (h' : Lexes ds us) :
    Lexes (cs ++ op.char :: ds) (ts ++ Token.ofOperator op :: us) where
  lex_append rest hrest := by
    have hright := (h'.sign op).lex_append rest hrest
    rw [List.cons_append] at hright
    rw [List.append_assoc, List.cons_append, h.lex_append _ (endsNumber_operator op _), hright,
      Functor.map_map]
    simp only [List.append_assoc]
  balanced_append depth rest := by
    rw [List.append_assoc, h.balanced_append, (h'.sign op).balanced_append]

/-- Parentheses around a text. -/
theorem group (h : Lexes cs ts) :
    Lexes ('(' :: cs ++ [')']) (Token.opening :: ts ++ [Token.closing]) where
  lex_append rest hrest := by
    have hclose : Scan.endsNumber (')' :: rest) := rfl
    simp only [List.cons_append, List.append_assoc, List.nil_append]
    rw [lex_opening, h.lex_append _ hclose, lex_closing, Functor.map_map, Functor.map_map]
  balanced_append depth rest := by
    simp only [List.cons_append, List.append_assoc, List.nil_append]
    rw [balancedFrom, h.balanced_append, balancedFrom]

/-- A function before a text in parentheses. -/
theorem call (f : Func) (h : Lexes ('(' :: cs) ts) :
    Lexes (f.symbol.toList ++ '(' :: cs) (⟨.identifier, f.symbol⟩ :: ts) where
  lex_append rest hrest := by
    have hparen : Scan.Stops Char.isAlphanum ('(' :: (cs ++ rest)) := rfl
    have hgroup := h.lex_append rest hrest
    rw [List.cons_append] at hgroup
    rw [List.append_assoc, List.cons_append, lex_name (isIdentifier_func f) hparen, hgroup,
      Functor.map_map]
    rfl
  balanced_append depth rest := by
    rw [List.append_assoc, balancedFrom_name (isIdentifier_func f), h.balanced_append]

/-- **A text that lexes is cut into its tokens.** -/
theorem tokenize (h : Lexes cs ts) : tokenize (String.ofList cs) = .ok ts := by
  have hbalanced : isBalanced (String.ofList cs) = true := by
    have := h.balanced_append 0 []
    rw [List.append_nil] at this
    rw [isBalanced, String.toList_ofList, this]
    rfl
  have hlex : lex cs = .ok ts := by
    have := h.lex_append [] rfl
    rw [List.append_nil, lex] at this
    rw [this]
    exact congrArg Except.ok (List.append_nil ts)
  rw [tokenize_ok_iff, String.toList_ofList]
  exact ⟨hbalanced, hlex⟩

end Lexes

/-! ### The tokens of the lexer -/

/-- The tokens that a text is cut into. -/
inductive Token.Lexed : Token → Prop
  | number (t : NumberText) : Lexed ⟨.number, String.ofList t.chars⟩
  | identifier {x : String} (h : isIdentifier x) : Lexed ⟨.identifier, x⟩
  | operator (op : Operator) : Lexed (Token.ofOperator op)
  | opening : Lexed Token.opening
  | closing : Lexed Token.closing

theorem exists_of_map_cons {t : Token} {ts : List Token} {x : Except Stuck (List Token)}
    (h : (t :: ·) <$> x = .ok ts) : ∃ us, x = .ok us ∧ ts = t :: us := by
  cases x with
  | error e => cases h
  | ok us =>
    cases h
    exact ⟨us, rfl, rfl⟩

/-- A character that makes a token on its own is an operator or a parenthesis. -/
theorem symbol_of_ofChar? {c : Char} {kind : TokenKind} (h : TokenKind.ofChar? c = some kind) :
    (∃ op : Operator, c = op.char ∧ kind = .operator) ∨ (c = '(' ∧ kind = .leftParen) ∨
      (c = ')' ∧ kind = .rightParen) := by
  unfold TokenKind.ofChar? at h
  split at h
  · rename_i hsome
    obtain ⟨op, hop⟩ := Option.isSome_iff_exists.1 hsome
    exact .inl ⟨op, Operator.ofChar?_eq_some.1 hop, (Option.some.inj h).symm⟩
  split at h
  · rename_i hopen
    exact .inr (.inl ⟨hopen, (Option.some.inj h).symm⟩)
  split at h
  · rename_i hclose
    exact .inr (.inr ⟨hclose, (Option.some.inj h).symm⟩)
  · cases h

theorem lexed_of_ofChar? {c : Char} {kind : TokenKind} (h : TokenKind.ofChar? c = some kind) :
    Token.Lexed ⟨kind, c.toString⟩ := by
  rcases symbol_of_ofChar? h with ⟨op, rfl, rfl⟩ | ⟨rfl, rfl⟩ | ⟨rfl, rfl⟩
  · rw [← ofOperator_eq]
    exact .operator op
  · exact .opening
  · exact .closing

theorem isIdentifier_identifier {c : Char} (cs : List Char) (hc : c.isAlpha) :
    isIdentifier (String.ofList (Scan.identifier (c :: cs)).text) := by
  have hcons : (Scan.identifier (c :: cs)).text = c :: cs.takeWhile Char.isAlphanum := by
    simp [Scan.identifier, Scan.run, Char.isAlphanum, hc]
  rw [isIdentifier, String.toList_ofList, hcons]
  exact Bool.and_eq_true_iff.2 ⟨hc, List.all_takeWhile⟩

theorem lexed_cons {t : Token} {us : List Token} (ht : t.Lexed) (hus : ∀ u ∈ us, u.Lexed) :
    ∀ u ∈ t :: us, u.Lexed := by
  intro u hu
  rcases List.mem_cons.1 hu with rfl | hu
  · exact ht
  · exact hus u hu

/-- **Every token is a number, an identifier, an operator or a parenthesis.** -/
theorem lexed_of_lex {cs : List Char} {ts : List Token} (h : lex cs = .ok ts) :
    ∀ t ∈ ts, t.Lexed := by
  induction cs using lex.induct generalizing ts with
  | case1 =>
    rw [lex] at h
    cases h
    exact fun t ht => absurd ht List.not_mem_nil
  | case2 c cs hc s hscan _ ih =>
    rw [lex_number hc hscan] at h
    obtain ⟨us, hus, rfl⟩ := exists_of_map_cons h
    obtain ⟨t, ht⟩ := NumberText.exists_of_number hc hscan
    rw [← ht]
    exact lexed_cons (.number t) (ih hus)
  | case3 c cs hc rest hscan =>
    rw [lex, dif_pos hc] at h
    split at h
    · rename_i heq
      cases hscan.symm.trans heq
    · cases h
  | case4 c cs hdigit hc =>
    rename_i ih
    rw [lex_identifier cs hc] at h
    obtain ⟨us, hus, rfl⟩ := exists_of_map_cons h
    exact lexed_cons (.identifier (isIdentifier_identifier cs hc)) (ih hus)
  | case5 c cs hdigit hc kind hkind ih =>
    rw [lex_symbol cs hdigit hc hkind] at h
    obtain ⟨us, hus, rfl⟩ := exists_of_map_cons h
    exact lexed_cons (lexed_of_ofChar? hkind) (ih hus)
  | case6 cs hdigit hc hkind ih =>
    rw [lex, dif_neg hdigit, dif_neg hc, hkind] at h
    exact ih h
  | case7 c cs hdigit hc hkind hspace =>
    rw [lex, dif_neg hdigit, dif_neg hc, hkind] at h
    simp only [if_neg hspace] at h
    cases h

theorem lexed_of_tokenize {source : String} {ts : List Token} (h : tokenize source = .ok ts) :
    ∀ t ∈ ts, t.Lexed :=
  lexed_of_lex (tokenize_ok_iff.1 h).2

end Formula
