import Formula.Proofs.Token.Spelling

/-!
Well-nested parentheses.  The parentheses of a text, and those of its tokens, are a word of the two
(`parentheses`, `Token.parentheses`), the same for both (`parentheses_of_spelling`).  What has been
read of a text is cut by the opening parentheses that are still open, and what stands between two of
these is well nested (`Pending`); reading on keeps this, as long as the parentheses balance.

Main statement: the check for balance holds exactly if the word is in the language of the grammar
`W → ε | ( W ) W` (`isBalanced_iff_wellNested`).
-/

namespace Formula

/-! ### Words -/

/-- The words of the grammar `W → ε | ( W ) W`. -/
inductive WellNested : List Char → Prop
  | nil : WellNested []
  | group {inner rest : List Char} (hinner : WellNested inner) (hrest : WellNested rest) :
      WellNested ('(' :: inner ++ ')' :: rest)

theorem WellNested.append {word rest : List Char} (h : WellNested word) (hrest : WellNested rest) :
    WellNested (word ++ rest) := by
  induction h with
  | nil => exact hrest
  | @group inner tail hinner _ _ ih =>
    rw [List.append_assoc, List.cons_append]
    exact .group hinner ih

/-- What is well nested changes nothing about what is open. -/
theorem WellNested.balancedFrom {word : List Char} (h : WellNested word) (depth : Nat)
    (rest : List Char) : balancedFrom depth (word ++ rest) = balancedFrom depth rest := by
  induction h generalizing depth rest with
  | nil => rfl
  | group _ _ ihinner ihrest =>
    rw [List.append_assoc, List.cons_append, List.cons_append, Formula.balancedFrom, ihinner,
      Formula.balancedFrom, ihrest]

/-- The parenthesis that a character is. -/
def parenthesis? (c : Char) : Option Char := if CharClass.parenthesis.holds c then some c else none

theorem parenthesis?_eq_none {c : Char} (hopen : c ≠ '(') (hclose : c ≠ ')') :
    parenthesis? c = none := by
  simp [parenthesis?, CharClass.holds, hopen, hclose]

/-- The parentheses of a text in order. -/
def parentheses (cs : List Char) : List Char := cs.filterMap parenthesis?

/-- The parenthesis that a token is. -/
def Token.parenthesis? (t : Token) : Option Char :=
  match t.kind with
  | .leftParen => some '('
  | .rightParen => some ')'
  | _ => none

/-- The parentheses of tokens in order. -/
def Token.parentheses (ts : List Token) : List Char := ts.filterMap Token.parenthesis?

theorem Token.parenthesis?_eq_opening {t : Token} : t.parenthesis? = some '(' ↔
    t.kind = .leftParen := by
  obtain ⟨kind, text⟩ := t
  cases kind <;> simp [Token.parenthesis?]

theorem Token.parenthesis?_eq_closing {t : Token} : t.parenthesis? = some ')' ↔
    t.kind = .rightParen := by
  obtain ⟨kind, text⟩ := t
  cases kind <;> simp [Token.parenthesis?]

theorem Token.parenthesis?_eq_none {t : Token} : t.parenthesis? = none ↔
    t.kind ≠ .leftParen ∧ t.kind ≠ .rightParen := by
  obtain ⟨kind, text⟩ := t
  cases kind <;> simp [Token.parenthesis?]

/-- Other characters do not count for the balance. -/
theorem balancedFrom_parentheses (depth : Nat) (cs : List Char) :
    balancedFrom depth (parentheses cs) = balancedFrom depth cs := by
  induction cs generalizing depth with
  | nil => rfl
  | cons c cs ih =>
    by_cases hopen : c = '('
    · subst hopen
      exact ih (depth + 1)
    by_cases hclose : c = ')'
    · subst hclose
      cases depth with
      | zero => rfl
      | succ depth => exact ih depth
    · rw [balancedFrom_cons hopen hclose, ← ih, parentheses,
        List.filterMap_cons_none (parenthesis?_eq_none hopen hclose)]
      rfl

/-! ### What is open -/

section Pending

variable {α : Type} {shape : α → Option Char} {read rest : List α} {a : α} {opens : List Nat}

/-- What has been read, with the positions of the opening parentheses that are still open, the last
one first.  Behind each of them, and before the first one, all is well nested. -/
inductive Pending (shape : α → Option Char) : List α → List Nat → Prop
  | closed {read : List α} (h : WellNested (read.filterMap shape)) : Pending shape read []
  | opening {outer inner : List α} {a : α} {opens : List Nat} (h : Pending shape outer opens)
      (ha : shape a = some '(') (hinner : WellNested (inner.filterMap shape)) :
      Pending shape (outer ++ a :: inner) (outer.length :: opens)

namespace Pending

theorem append (h : Pending shape read opens) (hrest : WellNested (rest.filterMap shape)) :
    Pending shape (read ++ rest) opens := by
  cases h with
  | closed hread =>
    refine .closed ?_
    rw [List.filterMap_append]
    exact hread.append hrest
  | opening houter ha hinner =>
    rw [List.append_assoc, List.cons_append]
    refine .opening houter ha ?_
    rw [List.filterMap_append]
    exact hinner.append hrest

theorem other (h : Pending shape read opens) (ha : shape a = none) :
    Pending shape (read ++ [a]) opens := by
  refine h.append ?_
  rw [List.filterMap_cons_none ha]
  exact .nil

theorem opened (h : Pending shape read opens) (ha : shape a = some '(') :
    Pending shape (read ++ [a]) (read.length :: opens) :=
  .opening h ha .nil

/-- A closing parenthesis closes the last one that is open. -/
theorem closing {position : Nat} (h : Pending shape read (position :: opens))
    (ha : shape a = some ')') : Pending shape (read ++ [a]) opens := by
  cases h with
  | @opening outer inner b _ houter hb hinner =>
    rw [List.append_assoc, List.cons_append]
    refine houter.append ?_
    rw [List.filterMap_cons_some hb, List.filterMap_append, List.filterMap_cons_some ha]
    exact .group hinner .nil

/-- As many parentheses are open as the check for balance counts. -/
theorem balancedFrom (h : Pending shape read opens) (depth : Nat) (word : List Char) :
    balancedFrom depth (read.filterMap shape ++ word) =
      balancedFrom (depth + opens.length) word := by
  induction h generalizing depth word with
  | closed hread => exact hread.balancedFrom depth word
  | opening _ ha hinner ih =>
    rw [List.filterMap_append, List.filterMap_cons_some ha, List.append_assoc, ih,
      List.cons_append, Formula.balancedFrom, hinner.balancedFrom]
    rfl

/-- Where parentheses balance, a closing one closes one that is open. -/
theorem exists_of_closing (h : Pending shape read opens) (ha : shape a = some ')')
    (hbalanced : Formula.balancedFrom 0 ((read ++ a :: rest).filterMap shape) = true) :
    ∃ position others, opens = position :: others := by
  rw [List.filterMap_append, List.filterMap_cons_some ha, h.balancedFrom] at hbalanced
  cases opens with
  | nil => cases hbalanced
  | cons position others => exact ⟨position, others, rfl⟩

/-- Where parentheses balance, none is open in the end. -/
theorem opens_eq_nil (h : Pending shape read opens)
    (hbalanced : Formula.balancedFrom 0 (read.filterMap shape) = true) : opens = [] := by
  rw [← List.append_nil (read.filterMap shape), h.balancedFrom, Nat.zero_add] at hbalanced
  exact List.length_eq_zero_iff.1 (eq_of_beq hbalanced)

end Pending

end Pending

/-! ### The language -/

/-- Reading on from what is pending to the end of a text that balances. -/
theorem wellNested_of_balancedFrom {read cs : List Char} {opens : List Nat}
    (h : Pending parenthesis? read opens) (hcs : balancedFrom opens.length cs = true) :
    WellNested (parentheses (read ++ cs)) := by
  induction cs generalizing read opens with
  | nil =>
    obtain rfl : opens = [] := List.length_eq_zero_iff.1 (eq_of_beq hcs)
    cases h with
    | closed hread => rwa [List.append_nil]
  | cons c cs ih =>
    rw [List.append_cons]
    by_cases hopen : c = '('
    · subst hopen
      exact ih (h.opened rfl) hcs
    by_cases hclose : c = ')'
    · subst hclose
      cases opens with
      | nil => cases hcs
      | cons position opens => exact ih (h.closing rfl) hcs
    · rw [balancedFrom_cons hopen hclose] at hcs
      exact ih (h.other (parenthesis?_eq_none hopen hclose)) hcs

/-- **The parentheses of a text balance exactly if they are well nested.** -/
theorem isBalanced_iff_wellNested (source : String) :
    isBalanced source = true ↔ WellNested (parentheses source.toList) := by
  constructor
  · intro h
    have hnone : Pending parenthesis? [] [] := .closed .nil
    exact wellNested_of_balancedFrom hnone h
  · intro h
    have hword := h.balancedFrom 0 []
    rw [List.append_nil, balancedFrom_parentheses] at hword
    rw [isBalanced, hword]
    rfl

/-! ### The parentheses of tokens -/

theorem parentheses_text {t : Token} (h : t.Lexed) :
    parentheses t.text.toList = Token.parentheses [t] := by
  have hnone {cs : List Char} (hcs : ∀ c ∈ cs, c ≠ '(' ∧ c ≠ ')') : parentheses cs = [] :=
    List.filterMap_eq_nil_iff.2 fun c hc => parenthesis?_eq_none (hcs c hc).1 (hcs c hc).2
  cases h with
  | number t =>
    have hparen : '(' ∉ NumberText.alphabet ∧ ')' ∉ NumberText.alphabet := by decide
    rw [String.toList_ofList]
    refine hnone fun c hc => ⟨?_, ?_⟩
    · rintro rfl
      exact hparen.1 (t.mem_alphabet _ hc)
    · rintro rfl
      exact hparen.2 (t.mem_alphabet _ hc)
  | identifier h =>
    obtain ⟨c, cs, hx, -, hall⟩ := toList_identifier h
    rw [hx]
    exact hnone fun d hd => ne_parenthesis_of_isAlphanum (hall d hd)
  | operator op =>
    rw [Token.ofOperator, toList_symbol]
    cases op <;> rfl
  | opening => rfl
  | closing => rfl

/-- **A text and its tokens have the same parentheses.** -/
theorem parentheses_of_spelling {ts : List Token} {cs : List Char} (h : Spelling ts cs) :
    parentheses cs = Token.parentheses ts := by
  induction h with
  | nil => rfl
  | space _ ih => exact ih
  | @token t ts cs ht _ _ ih =>
    have htext := parentheses_text ht
    rw [parentheses] at htext ih ⊢
    rw [List.filterMap_append, htext, ih, Token.parentheses, Token.parentheses, Token.parentheses,
      ← List.filterMap_append, List.singleton_append]

end Formula
