import Formula.Proofs.Grammar.Phrase
import Formula.Proofs.Postfix.Shunting
import Mathlib

/-!
Parsing reads every sentence of the grammar as its derivation says.  Reading a phrase above a stack
that admits its level adds some of the listing of its tree to the sequence and holds back the rest,
symbols that bind at least as tightly as the level (`Phrase.defers`); what follows releases them.
Main statement: a text whose tokens are those of a sentence is parsed into the listing of the tree
of the sentence (`parse_sentence`).
-/

namespace Formula

/-! ### Signs and functions -/

/-- What a sign before a sum is read as: the literal zero and the sign. -/
def leadTokens (sign : Option (Ranked 0)) : List Token :=
  match sign with
  | none => []
  | some op => [Token.zero, Token.ofOperator op.1]

/-- The tokens of a phrase with a zero before every leading sign and with functions told apart from
variables. -/
def Phrase.completed : {n : Nat} → Phrase n → List Token
  | _, tighter p => p.completed
  | _, join left op right => left.completed ++ Token.ofOperator op.1 :: right.completed
  | _, apply f arg => Token.ofFunc f :: arg.completed
  | _, number text => [⟨.number, text⟩]
  | _, var x _ => [⟨.identifier, x⟩]
  | _, group sign body =>
    Token.opening :: (leadTokens sign ++ body.completed) ++ [Token.closing]

section Classify

theorem classify_of_ne_identifier {t : Token} (ht : t.kind ≠ .identifier) : t.classify = t := by
  rw [Token.classify, if_neg fun h => ht h.1]

@[simp] theorem classify_ofOperator (op : Operator) :
    (Token.ofOperator op).classify = Token.ofOperator op :=
  classify_of_ne_identifier (by simp [Token.ofOperator])

@[simp] theorem classify_number (text : String) :
    (⟨.number, text⟩ : Token).classify = ⟨.number, text⟩ :=
  classify_of_ne_identifier (by simp)

@[simp] theorem classify_opening : Token.opening.classify = Token.opening :=
  classify_of_ne_identifier (by simp [Token.opening])

@[simp] theorem classify_closing : Token.closing.classify = Token.closing :=
  classify_of_ne_identifier (by simp [Token.closing])

theorem classify_func (f : Func) :
    (⟨.identifier, f.symbol⟩ : Token).classify = Token.ofFunc f := by
  simp [Token.classify, isFunctionName, Token.ofFunc]

theorem classify_var {x : String} (free : isFunctionName x = false) :
    (⟨.identifier, x⟩ : Token).classify = ⟨.identifier, x⟩ := by
  simp [Token.classify, free]

end Classify

section InsertZeros

variable (ts : List Token)

theorem isSign_of_rank_zero (op : Ranked 0) : (Token.ofOperator op.1).isSign = true := by
  obtain ⟨op, hop⟩ := op
  cases op <;> first | rfl | cases hop

theorem insertZeros_false_operator (op : Operator) :
    insertZeros false (Token.ofOperator op :: ts) =
      Token.ofOperator op :: insertZeros false ts := by
  simp only [insertZeros, Bool.false_and]
  rfl

theorem insertZeros_of_ne_operator {t : Token} (opens : Bool) (ht : t.kind ≠ .operator) :
    insertZeros opens (t :: ts) = t :: insertZeros (t.kind == .leftParen) ts := by
  have hsign : t.isSign = false := by simp [Token.isSign, ht]
  simp [insertZeros, hsign]

/-- A sum that may begin with a sign is read with the zero before the sign. -/
theorem classify_insertZeros_lead (sign : Option (Ranked 0)) {ts us : List Token}
    (h : ∀ opens, (insertZeros opens ts).map Token.classify = us) :
    (insertZeros true (signTokens sign ++ ts)).map Token.classify = leadTokens sign ++ us := by
  cases sign with
  | none => exact h true
  | some op =>
    have hsign : insertZeros true (Token.ofOperator op.1 :: ts) =
        Token.zero :: Token.ofOperator op.1 :: insertZeros false ts := by
      simp only [insertZeros, isSign_of_rank_zero op, Bool.and_self, if_true]
      rfl
    have hzero : Token.zero.classify = Token.zero := classify_number "0"
    show (insertZeros true (Token.ofOperator op.1 :: ts)).map Token.classify = _
    rw [hsign, List.map_cons, List.map_cons, hzero, classify_ofOperator, h false]
    rfl

end InsertZeros

/-- A phrase neither begins with a sign nor ends with an opening parenthesis, so zeros come only
into its groups. -/
theorem Phrase.classify_insertZeros {n : Nat} (p : Phrase n) (opens : Bool) (rest : List Token) :
    (insertZeros opens (p.tokens ++ rest)).map Token.classify =
      p.completed ++ (insertZeros false rest).map Token.classify := by
  induction p generalizing opens rest with
  | tighter p ih => exact ih opens rest
  | join left op right ihl ihr =>
    simp only [tokens, completed, List.append_assoc, List.cons_append]
    rw [ihl, insertZeros_false_operator, List.map_cons, classify_ofOperator, ihr]
  | apply f arg ih =>
    simp only [tokens, completed, List.cons_append]
    rw [insertZeros_of_ne_operator _ _ (by simp), List.map_cons, classify_func, ih]
  | number text =>
    simp only [tokens, completed, List.cons_append, List.nil_append]
    rw [insertZeros_of_ne_operator _ _ (by simp), List.map_cons, classify_number]
    rfl
  | var x free =>
    simp only [tokens, completed, List.cons_append, List.nil_append]
    rw [insertZeros_of_ne_operator _ _ (by simp), List.map_cons, classify_var free]
    rfl
  | group sign body ih =>
    have hclose : (insertZeros false (Token.closing :: rest)).map Token.classify =
        Token.closing :: (insertZeros false rest).map Token.classify := by
      rw [insertZeros_of_ne_operator _ _ (by simp [Token.closing]), List.map_cons,
        classify_closing]
      rfl
    simp only [tokens, completed, List.append_assoc, List.cons_append, List.nil_append]
    rw [insertZeros_of_ne_operator _ _ (by simp [Token.opening]), List.map_cons, classify_opening]
    congr 1
    refine classify_insertZeros_lead sign fun opens => ?_
    rw [ih, hclose]

/-! ### Reading a phrase -/

/-- Reading tokens above a stack adds some of a listing to the sequence and leaves the rest of it on
top of the stack, symbols that bind at least as tightly as a rank. -/
def Defers (n : Nat) (stack ts listing : List Token) : Prop :=
  ∃ out held, Shunts stack ts out (held ++ stack) ∧ out ++ held = listing ∧
    ∀ t ∈ held, t.BindsFrom n

theorem Defers.mono {m n : Nat} {stack ts listing : List Token} (hmn : m ≤ n)
    (h : Defers n stack ts listing) : Defers m stack ts listing := by
  obtain ⟨out, held, hrun, hlisting, hheld⟩ := h
  exact ⟨out, held, hrun, hlisting, fun t ht => (hheld t ht).mono hmn⟩

theorem Defers.operand {n : Nat} (stack : List Token) {t : Token}
    (ht : t.kind = .number ∨ t.kind = .identifier) : Defers n stack [t] [t] := by
  refine ⟨[t], [], Shunts.single ?_, rfl, by simp⟩
  rcases ht with ht | ht <;> simp [advance, ht]

theorem rank?_ranked {n : Nat} (op : Ranked n) : rank? op.1.symbol = some n :=
  (rank?_operator op.1).trans (congrArg some op.2)

theorem admits_opening (stack : List Token) : Admits 0 (Token.opening :: stack) := .inl rfl

theorem admits_operator {n : Nat} (op : Ranked n) (stack : List Token) :
    Admits (n + 1) (Token.ofOperator op.1 :: stack) :=
  .inr ⟨n, rank?_ranked op, Nat.lt_succ_self n⟩

/-- An operator releases what its left operand has held back, and is held back itself until its
right operand has been read. -/
theorem Defers.join {n : Nat} {stack ts us left right : List Token} (op : Ranked n)
    (hstack : Admits n stack) (hleft : Defers n stack ts left)
    (hright : Defers (n + 1) (Token.ofOperator op.1 :: stack) us right) :
    Defers n stack (ts ++ Token.ofOperator op.1 :: us)
      (left ++ right ++ [Token.ofOperator op.1]) := by
  obtain ⟨out, held, hrun, rfl, hheld⟩ := hleft
  obtain ⟨out', held', hrun', rfl, hheld'⟩ := hright
  have hop : advance (held ++ stack) (Token.ofOperator op.1) =
      .ok (held, Token.ofOperator op.1 :: stack) := by
    have hrelease := release_append (rank?_ranked op) hheld hstack
    simp only [advance, Token.ofOperator] at hrelease ⊢
    rw [hrelease]
    rfl
  refine ⟨out ++ (held ++ out'), held' ++ [Token.ofOperator op.1], ?_, ?_, ?_⟩
  · have := hrun.append (Shunts.cons_iff.2 ⟨held, _, out', hop, hrun', rfl⟩)
    simpa using this
  · simp
  · intro t ht
    rcases List.mem_append.1 ht with ht | ht
    · exact (hheld' t ht).mono (Nat.le_succ n)
    · rw [List.mem_singleton.1 ht]
      exact (bindsFrom_ofOperator op.1).mono (Nat.le_of_eq op.2.symm)

/-- A function is held back until its argument has been read. -/
theorem Defers.apply {stack ts listing : List Token} (f : Func) (hstack : Admits 3 stack)
    (harg : Defers 4 (Token.ofFunc f :: stack) ts listing) :
    Defers 3 stack (Token.ofFunc f :: ts) (listing ++ [Token.ofFunc f]) := by
  obtain ⟨out, held, hrun, rfl, hheld⟩ := harg
  have hf : advance stack (Token.ofFunc f) = .ok ([], Token.ofFunc f :: stack) := by
    have hrelease : release f.symbol ([] ++ stack) = .ok ([], stack) :=
      release_append (rank?_function f) (by simp) hstack
    simp only [advance, Token.ofFunc] at hrelease ⊢
    rw [← List.nil_append stack, hrelease]
    rfl
  refine ⟨out, held ++ [Token.ofFunc f], ?_, by simp, ?_⟩
  · simpa using Shunts.cons_iff.2 ⟨[], _, out, hf, hrun, rfl⟩
  · intro t ht
    rcases List.mem_append.1 ht with ht | ht
    · exact (hheld t ht).mono (by omega)
    · rw [List.mem_singleton.1 ht]
      exact ⟨by simp [Token.ofFunc], 3, rank?_function f, Nat.le_refl 3⟩

/-- The closing parenthesis releases all that its group has held back. -/
theorem Defers.group {n : Nat} {stack ts listing : List Token}
    (h : Defers 0 (Token.opening :: stack) ts listing) :
    Defers n stack (Token.opening :: ts ++ [Token.closing]) listing := by
  obtain ⟨out, held, hrun, rfl, hheld⟩ := h
  have hclose : advance (held ++ Token.opening :: stack) Token.closing = .ok (held, stack) := by
    have hrelease : releaseGroup (held ++ Token.opening :: stack) = (held, stack) :=
      releaseGroup_append (fun t ht => (hheld t ht).1) rfl
    simp only [advance, Token.closing, hrelease]
  refine ⟨out ++ held, [], ?_, by simp, by simp⟩
  have hopen : advance stack Token.opening = .ok ([], Token.opening :: stack) := rfl
  exact (Shunts.cons_iff.2 ⟨[], _, out, hopen, hrun, rfl⟩).append (Shunts.single hclose)

/-- **Reading a phrase**, with the zero and the sign that may stand before a sum. -/
theorem Phrase.defers {n : Nat} (p : Phrase n) (sign : Option (Ranked 0)) (stack : List Token)
    (hsign : sign ≠ none → n = 0) (hstack : Admits n stack) :
    Defers n stack (leadTokens sign ++ p.completed) (p.tree sign).postorder := by
  -- the sign travels down the left operands of a sum to its first product
  induction p generalizing sign stack with
  | @tighter n p ih =>
    cases sign with
    | none =>
      exact (ih none stack (by simp) (hstack.mono (Nat.le_succ n))).mono (Nat.le_succ n)
    | some op =>
      obtain rfl : n = 0 := hsign (by simp)
      have hp := ih none _ (by simp) (admits_operator op stack)
      exact (Defers.operand (t := Token.zero) stack (.inl rfl)).join op hstack hp
  | @join n left op right ihl ihr =>
    have hl := ihl sign stack hsign hstack
    have hr := ihr none _ (by simp) (admits_operator op stack)
    have := hl.join op hstack hr
    simpa [completed, tree, Term.postorder, leadTokens] using this
  | apply f arg ih =>
    obtain rfl : sign = none := not_imp_comm.1 hsign (by decide)
    have hadmits : Admits 4 (Token.ofFunc f :: stack) :=
      .inr ⟨3, rank?_function f, by omega⟩
    exact (ih none _ (by simp) hadmits).apply f hstack
  | number text =>
    obtain rfl : sign = none := not_imp_comm.1 hsign (by decide)
    exact Defers.operand stack (.inl rfl)
  | var x free =>
    obtain rfl : sign = none := not_imp_comm.1 hsign (by decide)
    exact Defers.operand stack (.inr rfl)
  | group inner body ih =>
    obtain rfl : sign = none := not_imp_comm.1 hsign (by decide)
    exact (ih inner _ (by simp) (admits_opening stack)).group

/-! ### Whole formulas -/

theorem toPostfix_sentence (s : Sentence) :
    toPostfix (completeSigns s.tokens) = .ok s.tree.postorder := by
  have hcompleted : (completeSigns s.tokens).map Token.classify =
      leadTokens s.sign ++ s.body.completed := by
    refine classify_insertZeros_lead s.sign fun opens => ?_
    have := s.body.classify_insertZeros opens []
    simpa [insertZeros] using this
  obtain ⟨out, held, hrun, hlisting, hheld⟩ :=
    s.body.defers s.sign [] (by simp) trivial
  have hkinds : ∀ t ∈ held, (t.kind != .leftParen) = true := fun t ht => by
    simpa using (hheld t ht).1
  rw [toPostfix, hcompleted, hrun.postfixFrom_eq, List.append_nil, List.filter_eq_self.2 hkinds,
    hlisting]
  rfl

/-- The listing of a tree makes one value of the depth before it. -/
theorem depthAfter?_postorder (t : Tree String) (depth : Nat) (rest : List Token) :
    depthAfter? depth (t.postorder ++ rest) = depthAfter? (depth + 1) rest := by
  induction t generalizing depth rest with
  | constant text => rfl
  | var x => rfl
  | binary op left right ihl ihr =>
    simp only [Term.postorder, List.append_assoc]
    rw [ihl, ihr]
    show (if depth + 2 < 2 then none else depthAfter? (depth + 3 - 2) rest) = _
    rw [if_neg (by omega)]
    rfl
  | unary f arg ih =>
    simp only [Term.postorder, List.append_assoc]
    rw [ih]
    simp [depthAfter?, Token.ofFunc, TokenKind.arity?]

theorem isWellFormed_postorder (t : Tree String) : isWellFormed t.postorder = true := by
  have := depthAfter?_postorder t 0 []
  rw [List.append_nil] at this
  rw [isWellFormed, this]
  rfl

/-- **Every sentence of the grammar is parsed into the listing of its tree.** -/
theorem parse_sentence (s : Sentence) (source : String) (h : tokenize source = .ok s.tokens) :
    parse source = .ok s.tree.postorder := by
  have hwell := isWellFormed_postorder s.tree
  rw [parse, h, ok_bind, toPostfix_sentence, ok_bind, if_pos hwell]
  rfl

/-- The derivation of `-a^2*b + sin(+c)`. -/
def signedSample : Sentence :=
  let square : Phrase 2 :=
    .join (.tighter (.tighter (.var "a" rfl))) ⟨.power, rfl⟩ (.tighter (.number "2"))
  let product : Phrase 1 :=
    .join (.tighter square) ⟨.times, rfl⟩ (.tighter (.tighter (.var "b" rfl)))
  let inner : Phrase 0 := .tighter (.tighter (.tighter (.tighter (.var "c" rfl))))
  let sine : Phrase 3 := .apply .sin (.group (some ⟨.plus, rfl⟩) inner)
  ⟨some ⟨.minus, rfl⟩, .join (.tighter product) ⟨.plus, rfl⟩ (.tighter (.tighter sine))⟩

/-- The sign before the sum takes the product that follows it, the one in the parentheses all that
is in them. -/
theorem parse_signedSample :
    tokenize "-a^2*b + sin(+c)" = .ok signedSample.tokens ∧
      parse "-a^2*b + sin(+c)" = .ok (Term.postorder
        (.binary .plus
          (.binary .minus (.constant "0")
            (.binary .times (.binary .power (.var "a") (.constant "2")) (.var "b")))
          (.unary .sin (.binary .plus (.constant "0") (.var "c"))))) := by
  have htokens : tokenize "-a^2*b + sin(+c)" = .ok signedSample.tokens := by cbv
  exact ⟨htokens, parse_sentence signedSample _ htokens⟩

end Formula
