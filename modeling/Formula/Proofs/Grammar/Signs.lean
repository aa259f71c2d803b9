import Formula.Proofs.Token.Completion
import Formula.Proofs.Grammar.Usable

/-!
Leading signs and the zeros before them.  The zeros are put between tokens, but could as well be
typed: a zero typed directly before a sign is a token of its own there, and typing it does not
change how the characters around it are read (`toOption_lex_typeZeros`).  A text that the lexer gets
stuck in keeps it stuck, as that depends on the next character only and no zero is typed into a
number.

Main statement: parsing a text with the zeros typed gives the same sequence or the same sort of
fault, and completing the signs of any tokens only puts zeros before signs, as many as are needed
(`signs_completed`).
-/

namespace Formula

/-! ### Token lists -/

section Tokens

variable {opens : Bool} {ts : List Token}

/-- No sign stands after an opening parenthesis, and none stands first if that counts, too. -/
inductive SignsComplete : Bool → List Token → Prop
  | nil {opens : Bool} : SignsComplete opens []
  | cons {opens : Bool} {t : Token} {ts : List Token} (ht : (opens && t.isSign) = false)
      (h : SignsComplete (t.kind == .leftParen) ts) : SignsComplete opens (t :: ts)

theorem complete_insertZeros (opens : Bool) (ts : List Token) :
    SignsComplete opens (insertZeros opens ts) := by
  induction ts generalizing opens with
  | nil => exact .nil
  | cons t ts ih =>
    rw [insertZeros]
    by_cases ht : (opens && t.isSign) = true
    · -- behind the zero, the sign may stand
      rw [if_pos ht]
      exact .cons (Bool.and_false opens) (.cons (Bool.false_and _) (ih _))
    · rw [if_neg ht]
      exact .cons (Bool.eq_false_iff.2 ht) (ih _)

theorem insertZeros_of_complete (h : SignsComplete opens ts) : insertZeros opens ts = ts := by
  induction h with
  | nil => rfl
  | cons ht _ ih =>
    rw [insertZeros, ih]
    exact if_neg (ne_true_of_eq_false ht)

/-- A sign behind these tokens is a leading one: the last of them is an opening parenthesis, or
there is none and that counts. -/
def leads (opens : Bool) (before : List Token) : Bool :=
  before.getLast?.elim opens (·.kind == .leftParen)

theorem leads_cons (opens : Bool) (t : Token) (before : List Token) :
    leads opens (t :: before) = leads (t.kind == .leftParen) before := by
  cases before with
  | nil => rfl
  | cons u before =>
    rw [leads, leads, List.getLast?_cons_cons, List.getLast?_cons, Option.elim_some,
      Option.elim_some]

/-- What is complete has no leading sign. -/
theorem SignsComplete.leads_eq_false {before after : List Token} {s : Token}
    (h : SignsComplete opens (before ++ s :: after)) (hs : s.isSign = true) :
    leads opens before = false := by
  induction before generalizing opens with
  | nil =>
    cases h with
    | cons hopens _ => simpa [leads, hs] using hopens
  | cons t before ih =>
    cases h with
    | cons _ h =>
      rw [leads_cons]
      exact ih h

/-! The zeros that are put in are marked, to tell them from those of the tokens. -/

/-- Puts a marked zero before a sign where `insertZeros` puts one. -/
def markZeros (opens : Bool) : List Token → List (Token × Bool)
  | [] => []
  | t :: ts =>
    let rest := (t, false) :: markZeros (t.kind == .leftParen) ts
    if opens && t.isSign then (Token.zero, true) :: rest else rest

theorem map_markZeros (opens : Bool) (ts : List Token) :
    (markZeros opens ts).map Prod.fst = insertZeros opens ts := by
  induction ts generalizing opens with
  | nil => rfl
  | cons t ts ih =>
    simp only [markZeros, insertZeros, ← ih]
    split <;> rfl

theorem filter_markZeros (opens : Bool) (ts : List Token) :
    ((markZeros opens ts).filter (!·.2)).map Prod.fst = ts := by
  induction ts generalizing opens with
  | nil => rfl
  | cons t ts ih =>
    simp only [markZeros]
    split <;> simp [ih]

/-- The marks are on zeros before leading signs. -/
theorem exists_of_markZeros {before after : List (Token × Bool)} {t : Token}
    (h : markZeros opens ts = before ++ (t, true) :: after) :
    t = Token.zero ∧ leads opens (before.map Prod.fst) = true ∧
      ∃ s ∈ after.head?, s.2 = false ∧ s.1.isSign = true := by
  induction ts generalizing opens before with
  | nil => simp [markZeros] at h
  | cons u ts ih =>
    have hrest {before : List (Token × Bool)} (opens : Bool)
        (h : (u, false) :: markZeros (u.kind == .leftParen) ts = before ++ (t, true) :: after) :
        t = Token.zero ∧ leads opens (before.map Prod.fst) = true ∧
          ∃ s ∈ after.head?, s.2 = false ∧ s.1.isSign = true := by
      rcases List.cons_eq_append_iff.1 h with ⟨rfl, hmark⟩ | ⟨before, rfl, hmarks⟩
      · cases hmark
      · rw [List.map_cons, leads_cons]
        exact ih hmarks
    simp only [markZeros] at h
    split at h
    · rename_i hu
      obtain ⟨hopens, hsign⟩ := Bool.and_eq_true_iff.1 hu
      rcases List.cons_eq_append_iff.1 h with ⟨rfl, hmark⟩ | ⟨before, rfl, hmarks⟩
      · cases hmark
        exact ⟨rfl, hopens, (u, false), rfl, rfl, hsign⟩
      · rw [List.map_cons, leads_cons]
        exact hrest _ hmarks
    · exact hrest opens h

end Tokens

/-! ### Texts -/

/-- The text with the character zero typed directly before every sign that comes first, if that
counts, or right after an opening parenthesis, where spaces do not matter. -/
def typeZeros (opens : Bool) : List Char → List Char
  | [] => []
  | c :: cs =>
    let rest := c :: typeZeros (c == '(' || c == ' ' && opens) cs
    if opens && (c == '+' || c == '-') then '0' :: rest else rest

section Texts

variable {opens : Bool} {c : Char} {cs ds : List Char}

theorem typeZeros_of_ne (hplus : c ≠ '+') (hminus : c ≠ '-') :
    typeZeros opens (c :: cs) = c :: typeZeros (c == '(' || c == ' ' && opens) cs := by
  simp [typeZeros, hplus, hminus]

theorem typeZeros_false_cons :
    typeZeros false (c :: cs) = c :: typeZeros (c == '(') cs := by
  simp [typeZeros]

theorem head?_typeZeros (cs : List Char) : (typeZeros false cs).head? = cs.head? := by
  cases cs with
  | nil => rfl
  | cons c cs => rw [typeZeros_false_cons]; rfl

theorem typeZeros_false_append (hds : '(' ∉ ds) :
    typeZeros false (ds ++ cs) = ds ++ typeZeros false cs := by
  induction ds with
  | nil => rfl
  | cons d ds ih =>
    obtain ⟨hd, hds⟩ := List.ne_and_not_mem_of_not_mem_cons hds
    rw [List.cons_append, typeZeros_false_cons, beq_false_of_ne (Ne.symm hd), ih hds]
    rfl

/-- Nothing is typed into a number or a name. -/
theorem typeZeros_word (hc : c.isAlphanum = true) (hds : '(' ∉ ds) (opens : Bool)
    (cs : List Char) : typeZeros opens (c :: (ds ++ cs)) = c :: (ds ++ typeZeros false cs) := by
  have hne {d : Char} (hd : d.isAlphanum = false) : c ≠ d := by
    rintro rfl
    rw [hc] at hd
    cases hd
  rw [typeZeros_of_ne (hne (by decide)) (hne (by decide)), beq_false_of_ne (hne (by decide)),
    beq_false_of_ne (hne (by decide)), Bool.false_and, Bool.or_false, typeZeros_false_append hds]

theorem isAlphanum_of_isDigit (hc : c.isDigit = true) : c.isAlphanum = true := by
  simp [Char.isAlphanum, hc]

theorem not_mem_number (t : NumberText) : '(' ∉ t.chars := fun h =>
  absurd (t.mem_alphabet _ h) (by decide)

/-- **A zero is typed before the text of a token if it is a sign in the right place.** -/
theorem typeZeros_token {t : Token} (ht : t.Lexed) (opens : Bool) (cs : List Char) :
    typeZeros opens (t.text.toList ++ cs) = (if opens && t.isSign then ['0'] else []) ++
      (t.text.toList ++ typeZeros (t.kind == .leftParen) cs) := by
  cases ht with
  | number t =>
    obtain ⟨c, ds, hchars, hc⟩ := t.exists_cons
    have hds := not_mem_number t
    rw [hchars] at hds
    have hkind : (TokenKind.number == .leftParen) = false := rfl
    simpa [Token.isSign, hchars, hkind] using
      typeZeros_word (isAlphanum_of_isDigit hc) (List.not_mem_of_not_mem_cons hds) opens cs
  | identifier h =>
    obtain ⟨c, ds, hx, -, hall⟩ := toList_identifier h
    have hds : '(' ∉ ds := fun hmem =>
      (ne_parenthesis_of_isAlphanum (hall _ (List.mem_cons_of_mem c hmem))).1 rfl
    have hkind : (TokenKind.identifier == .leftParen) = false := rfl
    simpa [Token.isSign, hx, hkind] using typeZeros_word (hall c List.mem_cons_self) hds opens cs
  | operator op =>
    rw [Token.ofOperator, toList_symbol]
    cases op <;> cases opens <;> rfl
  | opening => cases opens <;> rfl
  | closing => cases opens <;> rfl

/-- The zeros change nothing of where a token ends, for none is typed directly behind it unless it
is an opening parenthesis. -/
theorem endsBefore_typeZeros {t : Token} (h : t.EndsBefore cs) :
    t.EndsBefore (typeZeros (t.kind == .leftParen) cs) := by
  by_cases hkind : t.kind = .leftParen
  · simp [Token.EndsBefore, hkind]
  · rw [beq_false_of_ne hkind]
    exact (t.endsBefore_congr (head?_typeZeros cs)).2 h

theorem endsBefore_zero {t : Token} (ht : t.Lexed) (hsign : t.isSign = true) (cs : List Char) :
    Token.zero.EndsBefore (t.text.toList ++ cs) := by
  cases ht with
  | operator op =>
    rw [Token.ofOperator, toList_symbol]
    exact endsNumber_iff.1 (endsNumber_operator op cs)
  | _ => cases hsign

/-- The lexer takes what has been typed before a token off the front, and the token. -/
theorem lex_typeZeros_token {t : Token} (ht : t.Lexed) (hend : t.EndsBefore cs) (opens : Bool) :
    lex (typeZeros opens (t.text.toList ++ cs)) =
      ((if opens && t.isSign then [Token.zero, t] else [t]) ++ ·) <$>
        lex (typeZeros (t.kind == .leftParen) cs) := by
  have htoken := lex_token ht (endsBefore_typeZeros hend)
  rw [typeZeros_token ht]
  split
  · rename_i hsign
    have hend' := endsBefore_zero ht (Bool.and_eq_true_iff.1 hsign).2
      (typeZeros (t.kind == .leftParen) cs)
    have hzero := lex_token (.number NumberText.zero) hend'
    rw [htoken, Functor.map_map] at hzero
    exact hzero
  · exact htoken

/-- With a token at the front, typing and inserting agree if they do behind it. -/
theorem toOption_lex_token {t : Token} (ht : t.Lexed) (hend : t.EndsBefore cs)
    (ih : ∀ opens, (lex (typeZeros opens cs)).toOption = (lex cs).toOption.map (insertZeros opens))
    (opens : Bool) :
    (lex (typeZeros opens (t.text.toList ++ cs))).toOption =
      (lex (t.text.toList ++ cs)).toOption.map (insertZeros opens) := by
  rw [lex_typeZeros_token ht hend, lex_token ht hend, toOption_map, toOption_map, ih,
    Option.map_map, Option.map_map]
  refine congrArg (Option.map · _) (funext fun ts => ?_)
  simp only [Function.comp_apply, insertZeros]
  split <;> rfl

/-- The lexer gets stuck at the first token of a text with the zeros, too. -/
theorem exists_stuckAt {stuck : Stuck} (h : StuckAt cs stuck) (opens : Bool) :
    ∃ stuck', StuckAt (typeZeros opens cs) stuck' := by
  cases h with
  | @inNumber c cs rest hc hscan =>
    have hdigit : (c :: cs).head?.any Char.isDigit = true := hc
    obtain ⟨read, hne, hcs, hread⟩ := Scan.stalls_number hdigit hscan
    obtain ⟨d, ds, rfl⟩ := List.exists_cons_of_ne_nil hne
    obtain ⟨rfl, htail⟩ := List.cons.inj hcs
    -- what has been read is the beginning of a number and holds no parenthesis
    obtain ⟨last, -, t, ht⟩ := hread.form
    have hds := not_mem_number t
    simp only [ht, List.cons_append, List.mem_cons, List.mem_append, not_or] at hds
    have hword : typeZeros opens (c :: cs) = c :: ds ++ typeZeros false rest :=
      htail ▸ typeZeros_word (isAlphanum_of_isDigit hc) hds.2.1 opens rest
    rw [hword]
    exact ⟨_, .inNumber hc (hread.stuck _ (head?_typeZeros rest))⟩
  | @atCharacter c cs hdigit halpha hkind hspace =>
    have hplus : c ≠ '+' := by rintro rfl; cases hkind
    have hminus : c ≠ '-' := by rintro rfl; cases hkind
    rw [typeZeros_of_ne hplus hminus]
    exact ⟨_, .atCharacter _ hdigit halpha hkind hspace⟩

/-- **Typing the zeros is inserting them.** -/
theorem toOption_lex_typeZeros (opens : Bool) (cs : List Char) :
    (lex (typeZeros opens cs)).toOption = (lex cs).toOption.map (insertZeros opens) := by
  induction cs using lex_induction generalizing opens with
  | nil => simp [typeZeros, lex, insertZeros, Except.toOption]
  | space cs ih =>
    have hspace : typeZeros opens (' ' :: cs) = ' ' :: typeZeros opens cs := by simp [typeZeros]
    rw [hspace, lex_space, lex_space, ih]
  | token t cs ht hend ih => exact toOption_lex_token ht hend ih opens
  | stuck cs _ hstuck =>
    obtain ⟨stuck', hstuck'⟩ := exists_stuckAt hstuck opens
    rw [lex_of_stuckAt hstuck, lex_of_stuckAt hstuck']
    rfl

/-- A zero is no parenthesis. -/
theorem balancedFrom_typeZeros (opens : Bool) (depth : Nat) (cs : List Char) :
    balancedFrom depth (typeZeros opens cs) = balancedFrom depth cs := by
  have hzero (depth : Nat) (cs : List Char) :
      balancedFrom depth ('0' :: cs) = balancedFrom depth cs :=
    balancedFrom_cons (by decide) (by decide) depth cs
  induction cs generalizing opens depth with
  | nil => rfl
  | cons c cs ih =>
    have hrest (opens : Bool) :
        balancedFrom depth (c :: typeZeros opens cs) = balancedFrom depth (c :: cs) := by
      by_cases hopen : c = '('
      · subst hopen
        exact ih opens (depth + 1)
      by_cases hclose : c = ')'
      · subst hclose
        cases depth with
        | zero => rfl
        | succ depth => exact ih opens depth
      · rw [balancedFrom_cons hopen hclose, balancedFrom_cons hopen hclose, ih]
    rw [typeZeros]
    split
    · rw [hzero, hrest]
    · exact hrest _

end Texts

/-! ### Parsing -/

theorem completeSigns_completeSigns (ts : List Token) :
    completeSigns (completeSigns ts) = completeSigns ts :=
  insertZeros_of_complete (complete_insertZeros true ts)

section Parsing

variable {source : String}

/-- The source with the zeros typed. -/
def typedSource (source : String) : String := String.ofList (typeZeros true source.toList)

theorem isBalanced_typedSource (source : String) :
    isBalanced (typedSource source) = isBalanced source := by
  rw [isBalanced, isBalanced, typedSource, String.toList_ofList, balancedFrom_typeZeros]

theorem toOption_lex_typedSource (source : String) :
    (lex (typedSource source).toList).toOption =
      (lex source.toList).toOption.map completeSigns := by
  rw [typedSource, String.toList_ofList]
  exact toOption_lex_typeZeros true source.toList

/-- What is parsed depends on the tokens of the text only. -/
theorem parse_eq_ok_iff {sequence : List Token} : parse source = .ok sequence ↔
    isBalanced source = true ∧ ∃ ts ∈ (lex source.toList).toOption,
      toPostfix (completeSigns ts) = .ok sequence ∧ isWellFormed sequence = true := by
  simp only [parse_ok_iff, tokenize_ok_iff, Option.mem_def, toOption_eq_some, and_assoc,
    exists_and_left]

/-- The sort of fault depends on the tokens of the text only. -/
theorem kind_of_parse_eq {f : Fault} (h : parse source = .error f) :
    f.kind = if isBalanced source = true ∧ (lex source.toList).toOption = none then .lexical
      else .grammatical := by
  by_cases hbalanced : isBalanced source = true
  · cases hlex : lex source.toList with
    | ok ts =>
      have htokens := tokenize_ok_iff.2 ⟨hbalanced, hlex⟩
      rcases parse_eq_ok_or_mismatched htokens with ⟨sequence, hparse⟩ | hparse
      · cases hparse.symm.trans h
      · cases hparse.symm.trans h
        simp [Except.toOption, Fault.kind]
    | error stuck =>
      simp only [parse, tokenize, hbalanced, hlex, if_true] at h
      cases stuck <;> cases h <;> simp [hbalanced, Except.toOption, Fault.kind]
  · simp only [parse, tokenize, hbalanced] at h
    cases h
    simp [hbalanced, Fault.kind]

/-- **Typing the zeros changes neither what is parsed nor the sort of fault.** -/
theorem parse_typedSource (source : String) :
    (∃ sequence, parse source = .ok sequence ∧ parse (typedSource source) = .ok sequence) ∨
      ∃ f g, parse source = .error f ∧ parse (typedSource source) = .error g ∧ f.kind = g.kind := by
  have hiff (sequence : List Token) :
      parse (typedSource source) = .ok sequence ↔ parse source = .ok sequence := by
    simp [parse_eq_ok_iff, isBalanced_typedSource, toOption_lex_typedSource,
      completeSigns_completeSigns]
  cases h : parse source with
  | ok sequence => exact .inl ⟨sequence, rfl, (hiff sequence).2 h⟩
  | error f =>
    cases h' : parse (typedSource source) with
    | ok sequence => cases ((hiff sequence).1 h').symm.trans h
    | error g =>
      refine .inr ⟨f, g, rfl, rfl, ?_⟩
      simp [kind_of_parse_eq h, kind_of_parse_eq h', isBalanced_typedSource,
        toOption_lex_typedSource]

end Parsing

/-- **Completing the signs is typing the zeros.**  The first part is about texts.  On tokens, what
is complete stays as it is and has no leading signs, and the marked tokens are the zeros that were
put in, each directly before a leading sign, without which the tokens are the old ones. -/
theorem signs_completed :
    (∀ source, (∃ sequence, parse source = .ok sequence ∧
        parse (typedSource source) = .ok sequence) ∨
      ∃ f g, parse source = .error f ∧ parse (typedSource source) = .error g ∧ f.kind = g.kind) ∧
    ∀ tokens : List Token, completeSigns (completeSigns tokens) = completeSigns tokens ∧
      (∀ (before : List Token) (s : Token) (after : List Token),
        completeSigns tokens = before ++ s :: after → s.isSign = true →
          leads true before = false) ∧
      ∃ marked : List (Token × Bool), marked.map Prod.fst = completeSigns tokens ∧
        (marked.filter (!·.2)).map Prod.fst = tokens ∧
        ∀ (before : List (Token × Bool)) (t : Token) (after : List (Token × Bool)),
          marked = before ++ (t, true) :: after →
            t = Token.zero ∧ leads true (before.map Prod.fst) = true ∧
              ∃ s ∈ after.head?, s.2 = false ∧ s.1.isSign = true := by
  refine ⟨parse_typedSource, fun tokens => ⟨completeSigns_completeSigns tokens, ?_, ?_⟩⟩
  · intro before s after h hs
    have hcomplete := complete_insertZeros true tokens
    rw [← completeSigns, h] at hcomplete
    exact hcomplete.leads_eq_false hs
  · refine ⟨markZeros true tokens, map_markZeros true tokens, filter_markZeros true tokens, ?_⟩
    intro before t after h
    exact exists_of_markZeros h

example : typedSource " -( +x - 2e-3*( - y))" = " 0-( 0+x - 2e-3*( 0- y))" := by decide

end Formula
