import Formula.Proofs.Grammar.Parsing
import Formula.Proofs.Postfix.Group
import Formula.Proofs.Postfix.Replay
import Formula.Proofs.Token.Spelling

/-!
Putting accepted texts together.  An accepted text has tokens, and these a sequence that makes one
value (`Accepts`); in parentheses it has the same sequence, and groups may be joined by an operator
or follow the name of a function, whatever the texts inside them are.

Main statement: parsing is compositional under parentheses (`parse_grouped`).
-/

namespace Formula

/-! ### Tokens as they are reordered -/

/-- The tokens that are reordered: with zeros before the leading signs, and with functions told
apart from variables. -/
def arrange (tokens : List Token) : List Token := (completeSigns tokens).map Token.classify

theorem nested_insertZeros (opens : Bool) (depth : Nat) (ts : List Token) :
    nested depth ((insertZeros opens ts).map Token.classify) = nested depth ts := by
  induction ts generalizing opens depth with
  | nil => rfl
  | cons t ts ih =>
    have hrest : ∀ opens depth,
        nested depth (t.classify :: (insertZeros opens ts).map Token.classify) =
          nested depth (t :: ts) := by
      intro opens depth
      obtain ⟨kind, text⟩ := t
      cases kind with
      | leftParen => exact ih opens (depth + 1)
      | rightParen =>
        cases depth with
        | zero => rfl
        | succ depth => exact ih opens depth
      | identifier =>
        rw [nested_other depth ts (by simp) (by simp), ← ih opens]
        refine nested_other _ _ ?_ ?_ <;> rw [Token.classify] <;> split <;> simp
      | _ => exact ih opens depth
    simp only [insertZeros]
    split
    · exact hrest _ depth
    · exact hrest _ depth

theorem nested_arrange (ts : List Token) : nested 0 (arrange ts) = nested 0 ts :=
  nested_insertZeros true 0 ts

/-- What follows a closing parenthesis begins with no leading sign. -/
theorem insertZeros_append_closing (opens : Bool) (ts rest : List Token) :
    insertZeros opens (ts ++ Token.closing :: rest) =
      insertZeros opens ts ++ Token.closing :: insertZeros false rest := by
  induction ts generalizing opens with
  | nil => exact insertZeros_of_ne_operator rest opens (by simp [Token.closing])
  | cons t ts ih =>
    simp only [List.cons_append, insertZeros, ih]
    split <;> rfl

/-- The inside of a group is arranged as if it stood alone. -/
theorem arrange_group (opens : Bool) (ts rest : List Token) :
    (insertZeros opens (Token.opening :: ts ++ Token.closing :: rest)).map Token.classify =
      Token.opening :: arrange ts ++
        Token.closing :: (insertZeros false rest).map Token.classify := by
  have hopening : insertZeros opens (Token.opening :: (ts ++ Token.closing :: rest)) =
      Token.opening :: insertZeros true (ts ++ Token.closing :: rest) :=
    insertZeros_of_ne_operator _ opens (by simp [Token.opening])
  rw [List.cons_append, hopening, insertZeros_append_closing]
  simp [arrange, completeSigns]

/-! ### Counting operands -/

/-- Values that lie below do not matter. -/
theorem depthAfter?_add {depth n : Nat} {s : List Token} (h : depthAfter? depth s = some n)
    (below : Nat) : depthAfter? (depth + below) s = some (n + below) := by
  induction s generalizing depth with
  | nil =>
    cases h
    rfl
  | cons u s ih =>
    rw [depthAfter?, Option.bind_eq_bind, Option.bind_eq_some_iff] at h ⊢
    obtain ⟨arity, harity, h⟩ := h
    refine ⟨arity, harity, ?_⟩
    split at h
    · cases h
    · rename_i hlt
      have hdepth : depth + below + 1 - arity = depth + 1 - arity + below := by omega
      rw [if_neg (by omega), hdepth, ih h]

/-- A well-formed sequence adds one value to those below it. -/
theorem depthAfter?_of_isWellFormed {s : List Token} (h : isWellFormed s = true) (depth : Nat)
    (rest : List Token) : depthAfter? depth (s ++ rest) = depthAfter? (depth + 1) rest := by
  have hs : depthAfter? 0 s = some 1 := eq_of_beq h
  have hbelow := depthAfter?_add hs depth
  rw [Nat.zero_add, Nat.add_comm] at hbelow
  rw [depthAfter?_append, hbelow]
  rfl

/-! ### Accepted texts -/

/-- The text has the given tokens wherever it stands, and these the given sequence, which makes one
value. -/
structure Accepts (cs : List Char) (tokens sequence : List Token) : Prop where
  lexes : Lexes cs tokens
  reorders : postfixFrom [] (arrange tokens) = .ok sequence
  wellFormed : isWellFormed sequence = true

theorem balancedFrom_append_of_balanced {cs : List Char} {depth : Nat}
    (h : balancedFrom depth cs = true) (below : Nat) (rest : List Char) :
    balancedFrom (depth + below) (cs ++ rest) = balancedFrom below rest := by
  induction cs generalizing depth with
  | nil =>
    obtain rfl : depth = 0 := eq_of_beq h
    rw [Nat.zero_add, List.nil_append]
  | cons c cs ih =>
    by_cases hopen : c = '('
    · subst hopen
      rw [balancedFrom] at h
      rw [List.cons_append, balancedFrom, Nat.add_right_comm, ih h]
    by_cases hclose : c = ')'
    · subst hclose
      cases depth with
      | zero => cases h
      | succ depth =>
        rw [balancedFrom] at h
        rw [List.cons_append, Nat.add_right_comm, balancedFrom, ih h]
    · rw [balancedFrom_cons hopen hclose] at h
      rw [List.cons_append, balancedFrom_cons hopen hclose, ih h]

/-- A text that is cut into tokens has these wherever a number may end behind it. -/
theorem lexes_of_tokenize {source : String} {tokens : List Token}
    (h : tokenize source = .ok tokens) : Lexes source.toList tokens := by
  obtain ⟨hbalances, hspelling⟩ := tokenize_ok_iff_spelling.1 h
  have hbalanced := (isBalanced_iff source).2 hbalances
  refine ⟨fun rest => hspelling.lex_append, fun depth rest => ?_⟩
  rw [← balancedFrom_append_of_balanced hbalanced depth rest, Nat.zero_add]

namespace Accepts

variable {cs ds : List Char} {ts us s r : List Token}

theorem exists_of_parse {source : String} {sequence : List Token}
    (h : Formula.parse source = .ok sequence) :
    ∃ tokens, Accepts source.toList tokens sequence := by
  obtain ⟨tokens, htokens, hreorders, hwell⟩ := parse_ok_iff.1 h
  exact ⟨tokens, lexes_of_tokenize htokens, hreorders, hwell⟩

theorem parse {source : String} (h : Accepts source.toList ts s) :
    Formula.parse source = .ok s := by
  have htokens := h.lexes.tokenize
  rw [String.ofList_toList] at htokens
  exact parse_ok_iff.2 ⟨ts, htokens, h.reorders, h.wellFormed⟩

theorem nested_tokens (h : Accepts cs ts s) : nested 0 (arrange ts) = true := by
  rw [nested_arrange]
  exact nested_of_tokenize h.lexes.tokenize

/-- A text in parentheses has the sequence of the text. -/
theorem group (h : Accepts cs ts s) :
    Accepts ('(' :: cs ++ [')']) (Token.opening :: ts ++ [Token.closing]) s where
  lexes := h.lexes.group
  reorders := by
    have hshunts := shunts_group h.reorders h.nested_tokens []
    rw [arrange, completeSigns, arrange_group, insertZeros, List.map_nil, hshunts.postfixFrom_eq,
      List.filter_nil, List.append_nil]
  wellFormed := h.wellFormed

/-- The name of a function before a text in parentheses adds the function behind the sequence. -/
theorem call (f : Func) (h : Accepts cs ts s) :
    Accepts (f.symbol.toList ++ ('(' :: cs ++ [')']))
      (⟨.identifier, f.symbol⟩ :: (Token.opening :: ts ++ [Token.closing]))
      (s ++ [Token.ofFunc f]) where
  lexes := h.lexes.group.call f
  reorders := by
    have hshunts := shunts_group h.reorders h.nested_tokens [Token.ofFunc f]
    have hf : advance [] (Token.ofFunc f) = .ok ([], [Token.ofFunc f]) := rfl
    have hrun := Shunts.cons_iff.2 ⟨[], _, s, hf, hshunts, rfl⟩
    rw [arrange, completeSigns, insertZeros_of_ne_operator _ true (by simp), List.map_cons,
      classify_func, arrange_group, insertZeros, List.map_nil, hrun.postfixFrom_eq]
    rfl
  wellFormed := by
    rw [isWellFormed, depthAfter?_of_isWellFormed h.wellFormed]
    rfl

/-- Two texts in parentheses with an operator between them: the operator comes last. -/
theorem join (op : Operator) (h : Accepts cs ts s) (h' : Accepts ds us r) :
    Accepts ('(' :: cs ++ [')'] ++ op.char :: ('(' :: ds ++ [')']))
      (Token.opening :: ts ++ [Token.closing] ++
        Token.ofOperator op :: (Token.opening :: us ++ [Token.closing]))
      (s ++ r ++ [Token.ofOperator op]) where
  lexes := h.lexes.group.join op h'.lexes.group
  reorders := by
    have hleft := shunts_group h.reorders h.nested_tokens []
    have hright := shunts_group h'.reorders h'.nested_tokens [Token.ofOperator op]
    have hop : advance [] (Token.ofOperator op) = .ok ([], [Token.ofOperator op]) := rfl
    have hrun := hleft.append (Shunts.cons_iff.2 ⟨[], _, r, hop, hright, rfl⟩)
    rw [arrange, completeSigns, List.append_assoc, List.append_assoc, List.singleton_append,
      arrange_group, insertZeros_false_operator, List.map_cons, classify_ofOperator,
      arrange_group, insertZeros, List.map_nil]
    simpa [Token.ofOperator] using hrun.postfixFrom_eq
  wellFormed := by
    rw [isWellFormed, List.append_assoc, depthAfter?_of_isWellFormed h.wellFormed,
      depthAfter?_of_isWellFormed h'.wellFormed]
    rfl

end Accepts

/-! ### Groups of accepted texts -/

/-- **Parsing is compositional under parentheses.**  Whatever two accepted texts are, in parentheses
and with an operator between them they have both sequences and the operator behind them; a function
before a text in parentheses goes behind its sequence, and parentheses alone change nothing. -/
theorem parse_grouped (source source' : String) (sequence sequence' : List Token)
    (h : parse source = .ok sequence) (h' : parse source' = .ok sequence') (op : Operator)
    (f : Func) :
    parse ("(" ++ source ++ ")" ++ op.symbol ++ "(" ++ source' ++ ")") =
        .ok (sequence ++ sequence' ++ [Token.ofOperator op]) ∧
      parse (f.symbol ++ "(" ++ source ++ ")") = .ok (sequence ++ [Token.ofFunc f]) ∧
      parse ("(" ++ source ++ ")") = .ok sequence := by
  obtain ⟨tokens, hleft⟩ := Accepts.exists_of_parse h
  obtain ⟨tokens', hright⟩ := Accepts.exists_of_parse h'
  refine ⟨?_, ?_, ?_⟩
  · have hjoin := hleft.join op hright
    have htext : ("(" ++ source ++ ")" ++ op.symbol ++ "(" ++ source' ++ ")").toList =
        '(' :: source.toList ++ [')'] ++ op.char :: ('(' :: source'.toList ++ [')']) := by
      simp [toList_symbol]
    rw [← htext] at hjoin
    exact hjoin.parse
  · have hcall := hleft.call f
    have htext : (f.symbol ++ "(" ++ source ++ ")").toList =
        f.symbol.toList ++ ('(' :: source.toList ++ [')']) := by
      simp
    rw [← htext] at hcall
    exact hcall.parse
  · have hgroup := hleft.group
    have htext : ("(" ++ source ++ ")").toList = '(' :: source.toList ++ [')'] := by
      simp
    rw [← htext] at hgroup
    exact hgroup.parse

/-- The first text begins with a sign, and the second one has its operator last. -/
theorem parse_groupedSample :
    parse " -x" = .ok [Token.zero, ⟨.identifier, "x"⟩, Token.ofOperator .minus] ∧
      parse "1 2 +" = .ok [⟨.number, "1"⟩, ⟨.number, "2"⟩, Token.ofOperator .plus] ∧
      parse "( -x)*(1 2 +)" = .ok [Token.zero, ⟨.identifier, "x"⟩, Token.ofOperator .minus,
        ⟨.number, "1"⟩, ⟨.number, "2"⟩, Token.ofOperator .plus, Token.ofOperator .times] ∧
      parse "sin( -x)" =
        .ok [Token.zero, ⟨.identifier, "x"⟩, Token.ofOperator .minus, Token.ofFunc .sin] := by
  have hsigned : parse " -x" = .ok [Token.zero, ⟨.identifier, "x"⟩, Token.ofOperator .minus] := by
    cbv
  have htrailing : parse "1 2 +" =
      .ok [⟨.number, "1"⟩, ⟨.number, "2"⟩, Token.ofOperator .plus] := by
    cbv
  obtain ⟨hjoin, hcall, -⟩ := parse_grouped _ _ _ _ hsigned htrailing .times .sin
  exact ⟨hsigned, htrailing, hjoin, hcall⟩

end Formula
