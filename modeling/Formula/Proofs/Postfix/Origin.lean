import Formula.Proofs.Postfix.Shunting
import Formula.Proofs.Token.Lexing

/-!
Where the tokens of a postfix sequence come from.  Reordering makes no new tokens, and so every
token of the sequence of a formula is one of its own, with functions told apart from variables, or
the zero before a sign (`arranged_of_parse`).  All symbols among them have ranks, so that reordering
them cannot fail (`parse_eq_ok_or_mismatched`).
-/

namespace Formula

/-! ### Reordering -/

/-- Releasing cuts the stack in two. -/
theorem append_of_release {symbol : String} {stack released kept : List Token}
    (h : release symbol stack = .ok (released, kept)) : released ++ kept = stack := by
  induction stack generalizing released with
  | nil =>
    cases h
    rfl
  | cons top stack ih =>
    rcases release_cons h with ⟨rfl, rfl⟩ | ⟨-, rest, hrest, rfl⟩
    · rfl
    · rw [List.cons_append, ih hrest]

theorem mem_of_advance {stack out kept : List Token} {t : Token}
    (h : advance stack t = .ok (out, kept)) : ∀ u ∈ out ++ kept, u = t ∨ u ∈ stack := by
  intro u hu
  cases advances_iff.1 h with
  | operand ht => simpa using hu
  | opening ht => simpa using hu
  | closing ht =>
    right
    rcases List.mem_append.1 hu with hu | hu
    · exact (List.takeWhile_sublist _).mem hu
    · exact (List.dropWhile_sublist _).mem (List.mem_of_mem_drop hu)
  | symbol ht hrelease =>
    rw [← append_of_release hrelease]
    simp only [List.mem_append, List.mem_cons] at hu ⊢
    tauto

theorem mem_of_postfixFrom {stack ts out : List Token} (h : postfixFrom stack ts = .ok out) :
    ∀ u ∈ out, u ∈ stack ∨ u ∈ ts := by
  induction ts generalizing stack out with
  | nil =>
    cases h
    exact fun u hu => .inl ((List.mem_filter.1 hu).1)
  | cons t ts ih =>
    intro u hu
    simp only [postfixFrom, bind_eq_ok, Prod.exists] at h
    obtain ⟨first, kept, hadvance, rest, hrest, h⟩ := h
    cases h
    have hfirst := mem_of_advance hadvance
    have hkept : u ∈ first ++ kept → u ∈ stack ∨ u ∈ t :: ts := fun hmem => by
      rcases hfirst u hmem with rfl | hmem
      · exact .inr List.mem_cons_self
      · exact .inl hmem
    rcases List.mem_append.1 hu with hu | hu
    · exact hkept (List.mem_append_left kept hu)
    · rcases ih hrest u hu with hu | hu
      · exact hkept (List.mem_append_right first hu)
      · exact .inr (List.mem_cons_of_mem t hu)

theorem mem_of_insertZeros {opens : Bool} {ts : List Token} :
    ∀ u ∈ insertZeros opens ts, u = Token.zero ∨ u ∈ ts := by
  induction ts generalizing opens with
  | nil => exact fun u hu => .inr hu
  | cons t ts ih =>
    intro u hu
    have hrest : u ∈ t :: insertZeros (t.kind == .leftParen) ts → u = Token.zero ∨ u ∈ t :: ts := by
      intro hmem
      rcases List.mem_cons.1 hmem with rfl | hmem
      · exact .inr List.mem_cons_self
      · exact (ih u hmem).imp_right (List.mem_cons_of_mem t)
    simp only [insertZeros] at hu
    split at hu
    · rcases List.mem_cons.1 hu with rfl | hu
      · exact .inl rfl
      · exact hrest hu
    · exact hrest hu

/-! ### Formulas -/

/-- The tokens of a sequence: numbers, names of variables, operators, functions, and parentheses. -/
inductive Token.Arranged : Token → Prop
  | number (t : NumberText) : Arranged ⟨.number, String.ofList t.chars⟩
  | name {x : String} (h : isName x) : Arranged ⟨.identifier, x⟩
  | operator (op : Operator) : Arranged (Token.ofOperator op)
  | function (f : Func) : Arranged (Token.ofFunc f)
  | opening : Arranged Token.opening
  | closing : Arranged Token.closing

theorem Token.Lexed.arranged {t : Token} (h : t.Lexed) : t.classify.Arranged := by
  cases h with
  | number t => exact .number t
  | operator op => exact .operator op
  | opening => exact .opening
  | closing => exact .closing
  | @identifier x h =>
    by_cases hx : isFunctionName x
    · obtain ⟨f, hf⟩ := Option.isSome_iff_exists.1 hx
      have hclassify : Token.classify ⟨.identifier, x⟩ = Token.ofFunc f := by
        rw [Token.classify, if_pos ⟨rfl, hx⟩, Func.ofSymbol?_eq_some.1 hf]
        rfl
      rw [hclassify]
      exact .function f
    · have hclassify : Token.classify ⟨.identifier, x⟩ = ⟨.identifier, x⟩ := by
        rw [Token.classify, if_neg fun hfunction => hx hfunction.2]
      rw [hclassify]
      exact .name (by simp [isName, h, hx])

theorem arranged_of_tokenize {source : String} {tokens : List Token}
    (h : tokenize source = .ok tokens) :
    ∀ u ∈ (completeSigns tokens).map Token.classify, u.Arranged := by
  intro u hu
  obtain ⟨t, ht, rfl⟩ := List.mem_map.1 hu
  rcases mem_of_insertZeros t ht with rfl | ht
  · exact .number NumberText.zero
  · exact (lexed_of_tokenize h t ht).arranged

/-- A sequence is parsed if it is the reordered tokens of the text and counts out to one value. -/
theorem parse_ok_iff {source : String} {sequence : List Token} : parse source = .ok sequence ↔
    ∃ tokens, tokenize source = .ok tokens ∧ toPostfix (completeSigns tokens) = .ok sequence ∧
      isWellFormed sequence = true := by
  simp only [parse, bind_eq_ok]
  constructor
  · rintro ⟨tokens, htokens, out, hout, h⟩
    split at h
    · rename_i hwell
      cases h
      exact ⟨tokens, htokens, hout, hwell⟩
    · cases h
  · rintro ⟨tokens, htokens, hout, hwell⟩
    exact ⟨tokens, htokens, sequence, hout, if_pos hwell⟩

theorem arranged_of_parse {source : String} {sequence : List Token}
    (h : parse source = .ok sequence) :
    (∀ t ∈ sequence, t.Arranged) ∧ isWellFormed sequence = true := by
  obtain ⟨tokens, htokens, hout, hwell⟩ := parse_ok_iff.1 h
  refine ⟨fun u hu => ?_, hwell⟩
  rcases mem_of_postfixFrom hout u hu with hu | hu
  · exact absurd hu List.not_mem_nil
  · exact arranged_of_tokenize htokens u hu

theorem Token.Arranged.isRanked {t : Token} (h : t.Arranged) : t.IsRanked := by
  intro hkind
  cases h with
  | operator op => exact ⟨op.rank, rank?_operator op⟩
  | function f => exact ⟨3, rank?_function f⟩
  | number t => simp at hkind
  | name h => simp at hkind
  | opening => simp [Token.opening] at hkind
  | closing => simp [Token.closing] at hkind

/-- The tokens of a text can be reordered. -/
theorem exists_toPostfix {source : String} {tokens : List Token}
    (h : tokenize source = .ok tokens) : ∃ out, toPostfix (completeSigns tokens) = .ok out := by
  have hempty : ∀ u ∈ ([] : List Token), u.Holds := by simp
  exact exists_postfixFrom hempty fun u hu => (arranged_of_tokenize h u hu).isRanked

theorem parse_of_toPostfix {source : String} {tokens sequence : List Token}
    (h : tokenize source = .ok tokens) (hout : toPostfix (completeSigns tokens) = .ok sequence) :
    parse source =
      if isWellFormed sequence then .ok sequence else .error (.mismatched source) := by
  rw [parse, h, ok_bind, hout, ok_bind]
  rfl

/-- **A text that can be cut into tokens is parsed, or it is rejected for its operands.** -/
theorem parse_eq_ok_or_mismatched {source : String} {tokens : List Token}
    (h : tokenize source = .ok tokens) :
    (∃ sequence, parse source = .ok sequence) ∨ parse source = .error (.mismatched source) := by
  obtain ⟨out, hout⟩ := exists_toPostfix h
  rw [parse_of_toPostfix h hout]
  by_cases hwell : isWellFormed out = true
  · exact .inl ⟨out, if_pos hwell⟩
  · exact .inr (if_neg hwell)

end Formula
