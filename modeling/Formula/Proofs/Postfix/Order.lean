import Formula.Proofs.Postfix.Origin
import Mathlib.Data.List.Perm.Basic

/-!
The order of the tokens in a postfix sequence.  Every token is followed with its position in the
text, so that tokens that are spelled alike are told apart.  What a step does then has one
description (`Moves`), and a run arranges the tokens: none is lost but parentheses, none is new, and
what stands before an operand has come before it in the text, since an operand is never held back.

Main statement: tokens whose symbols have ranks can always be reordered, whatever their parentheses,
and the sequence has the operands in the order of the text and every symbol behind the operands
before it (`toPostfix_order`).
-/

namespace Formula

open scoped List

namespace Token

/-- The token is a number or a variable. -/
def isOperand (t : Token) : Bool := t.kind == .number || t.kind == .identifier

/-- The token is a parenthesis. -/
def isParenthesis (t : Token) : Bool := t.kind == .leftParen || t.kind == .rightParen

/-- The token is of a kind that is held back on the stack. -/
def isHeld (t : Token) : Bool := !t.isOperand && t.kind != .rightParen

theorem isOperand_of_isHeld {t : Token} (h : t.isHeld = true) : t.isOperand = false := by
  simpa using (Bool.and_eq_true_iff.1 h).1

/-- Of the tokens that are held back, only opening parentheses are parentheses. -/
theorem isParenthesis_of_isHeld {t : Token} (h : t.isHeld = true) :
    t.isParenthesis = (t.kind == .leftParen) := by
  simp only [isHeld, Bool.and_eq_true, bne_iff_ne] at h
  simp [isParenthesis, h.2]

end Token

/-! ### Tokens with positions -/

/-- The tokens that are no parentheses. -/
def proper (ps : List (Token × Nat)) : List (Token × Nat) := ps.filter fun p => !p.1.isParenthesis

theorem proper_append (ps qs : List (Token × Nat)) :
    proper (ps ++ qs) = proper ps ++ proper qs :=
  List.filter_append ps qs

/-- What stands before an operand has come before it in the text, too. -/
def Ordered (ps : List (Token × Nat)) : Prop :=
  ps.Pairwise fun p q => q.1.isOperand = true → p.2 < q.2

section Held

variable {ps : List (Token × Nat)} (h : ∀ p ∈ ps, p.1.isHeld = true)

include h

theorem ordered_of_isHeld : Ordered ps := by
  apply List.pairwise_of_forall_mem_list
  intro p _ q hq hoperand
  rw [Token.isOperand_of_isHeld (h q hq)] at hoperand
  cases hoperand

theorem proper_of_isHeld : proper ps = ps.filter (·.1.kind != .leftParen) := by
  apply List.filter_congr
  intro p hp
  rw [Token.isParenthesis_of_isHeld (h p hp)]
  rfl

theorem proper_eq_self (hparen : ∀ p ∈ ps, p.1.kind ≠ .leftParen) : proper ps = ps := by
  rw [proper_of_isHeld h, List.filter_eq_self]
  intro p hp
  exact bne_iff_ne.2 (hparen p hp)

end Held

/-! ### Steps -/

/-- A symbol releases no parenthesis. -/
theorem ne_leftParen_of_release {symbol : String} {stack released kept : List Token}
    (h : release symbol stack = .ok (released, kept)) : ∀ u ∈ released, u.kind ≠ .leftParen := by
  induction stack generalizing released with
  | nil =>
    cases h
    simp
  | cons top stack ih =>
    rcases release_cons h with ⟨rfl, -⟩ | ⟨htop, rest, hrest, rfl⟩
    · simp
    · exact List.forall_mem_cons.2 ⟨htop, ih hrest⟩

/-- A closing parenthesis releases what stands above an opening one and drops that. -/
theorem exists_group (stack : List (Token × Nat)) : ∃ placed dropped held,
    stack = placed ++ dropped ++ held ∧
      releaseGroup (stack.map Prod.fst) = (placed.map Prod.fst, held.map Prod.fst) ∧
      (∀ p ∈ placed, p.1.kind ≠ .leftParen) ∧ ∀ p ∈ dropped, p.1.kind = .leftParen := by
  induction stack with
  | nil => exact ⟨[], [], [], rfl, rfl, by simp, by simp⟩
  | cons top stack ih =>
    by_cases hparen : top.1.kind = .leftParen
    · exact ⟨[], [top], stack, rfl, by simp [releaseGroup, hparen], by simp, by simp [hparen]⟩
    · obtain ⟨placed, dropped, held, hstack, hgroup, hplaced, hdropped⟩ := ih
      refine ⟨top :: placed, dropped, held, by rw [hstack]; rfl, ?_,
        List.forall_mem_cons.2 ⟨hparen, hplaced⟩, hdropped⟩
      rw [releaseGroup, Prod.mk.injEq] at hgroup
      simp [releaseGroup, hparen, hgroup]

/-- What reading a token may do with it and the stack: it places some of them in the sequence and
holds others back, loses none but parentheses, makes none, and places in order. -/
structure Moves (stack : List (Token × Nat)) (t : Token × Nat) (placed held : List (Token × Nat)) :
    Prop where
  isHeld : ∀ p ∈ held, p.1.isHeld = true
  mem : ∀ p ∈ placed ++ held, p ∈ t :: stack
  perm : placed ++ proper held ~ proper (t :: stack)
  ordered : Ordered placed

variable {stack : List (Token × Nat)} {ts out kept : List Token} {n : Nat}

/-- **A step moves tokens with their positions.** -/
theorem exists_moves {t : Token × Nat} (hstack : ∀ p ∈ stack, p.1.isHeld = true)
    (h : advance (stack.map Prod.fst) t.1 = .ok (out, kept)) :
    ∃ placed held, placed.map Prod.fst = out ∧ held.map Prod.fst = kept ∧
      Moves stack t placed held := by
  cases advances_iff.1 h with
  | operand ht =>
    have hproper : t.1.isParenthesis = false := by
      rcases ht with ht | ht <;> simp [Token.isParenthesis, ht]
    refine ⟨[t], stack, rfl, rfl, hstack, ?_, ?_, List.pairwise_singleton _ t⟩
    · simp
    · simp [proper, hproper]
  | opening ht =>
    have hheld : t.1.isHeld = true := by simp [Token.isHeld, Token.isOperand, ht]
    refine ⟨[], t :: stack, rfl, rfl, List.forall_mem_cons.2 ⟨hheld, hstack⟩, ?_, .refl _, .nil⟩
    simp
  | closing ht =>
    have hparen : t.1.isParenthesis = true := by simp [Token.isParenthesis, ht]
    obtain ⟨placed, dropped, held, rfl, hgroup, hplaced, hdropped⟩ := exists_group stack
    rw [hgroup]
    simp only [List.forall_mem_append] at hstack
    obtain ⟨⟨hfront, -⟩, hback⟩ := hstack
    have hnone : proper dropped = [] := by
      rw [proper, List.filter_eq_nil_iff]
      intro p hp
      simp [Token.isParenthesis, hdropped p hp]
    refine ⟨placed, held, rfl, rfl, hback, ?_, ?_, ordered_of_isHeld hfront⟩
    · simp only [List.mem_append, List.mem_cons]
      tauto
    · have hself := proper_eq_self hfront hplaced
      simp only [proper, List.filter_cons, List.filter_append, hparen] at hself hnone ⊢
      simp [hself, hnone]
  | @symbol released rest ht hrelease =>
    have hproper : t.1.isParenthesis = false := by
      rcases ht with ht | ht <;> simp [Token.isParenthesis, ht]
    have hheld : t.1.isHeld = true := by
      rcases ht with ht | ht <;> simp [Token.isHeld, Token.isOperand, ht]
    obtain ⟨placed, below, rfl, rfl, rfl⟩ :=
      List.map_eq_append_iff.1 (append_of_release hrelease).symm
    obtain ⟨hplaced, hbelow⟩ := List.forall_mem_append.1 hstack
    have hsymbols := ne_leftParen_of_release hrelease
    rw [List.forall_mem_map] at hsymbols
    refine ⟨placed, t :: below, rfl, rfl, List.forall_mem_cons.2 ⟨hheld, hbelow⟩, ?_, ?_,
      ordered_of_isHeld hplaced⟩
    · simp only [List.mem_append, List.mem_cons]
      tauto
    · have hself := proper_eq_self hplaced hsymbols
      simp only [proper, List.filter_cons, List.filter_append, hproper] at hself ⊢
      rw [hself]
      exact List.perm_middle

/-! ### Runs -/

/-- **A run arranges the tokens of the stack and of the text**, the former being older. -/
theorem exists_placed (hstack : ∀ p ∈ stack, p.1.isHeld = true) (hpositions : ∀ p ∈ stack, p.2 < n)
    (h : postfixFrom (stack.map Prod.fst) ts = .ok out) :
    ∃ placed, placed.map Prod.fst = out ∧ placed ~ proper (stack ++ ts.zipIdx n) ∧
      Ordered placed := by
  induction ts generalizing stack out n with
  | nil =>
    cases h
    refine ⟨proper stack, ?_, ?_, (ordered_of_isHeld hstack).filter _⟩
    · rw [proper_of_isHeld hstack, List.filter_map]
      rfl
    · rw [List.zipIdx_nil, List.append_nil]
  | cons t ts ih =>
    simp only [postfixFrom, bind_eq_ok, Prod.exists] at h
    obtain ⟨first, kept, hadvance, rest, hrest, h⟩ := h
    cases h
    obtain ⟨placed, held, rfl, rfl, hmoves⟩ := exists_moves (t := (t, n)) hstack hadvance
    have hbound : ∀ p ∈ placed ++ held, p.2 < n + 1 := by
      intro p hp
      rcases List.mem_cons.1 (hmoves.mem p hp) with rfl | hp
      · exact Nat.lt_succ_self n
      · exact Nat.lt_succ_of_lt (hpositions p hp)
    obtain ⟨hplaced, hheld⟩ := List.forall_mem_append.1 hbound
    obtain ⟨later, rfl, hperm, hordered⟩ := ih hmoves.isHeld hheld hrest
    refine ⟨placed ++ later, List.map_append, ?_, ?_⟩
    · have hmiddle : stack ++ (t, n) :: ts.zipIdx (n + 1) ~ (t, n) :: stack ++ ts.zipIdx (n + 1) :=
        List.perm_middle
      calc placed ++ later
        _ ~ placed ++ proper (held ++ ts.zipIdx (n + 1)) := hperm.append_left placed
        _ = placed ++ proper held ++ proper (ts.zipIdx (n + 1)) := by
            rw [proper_append, List.append_assoc]
        _ ~ proper ((t, n) :: stack) ++ proper (ts.zipIdx (n + 1)) := hmoves.perm.append_right _
        _ = proper ((t, n) :: stack ++ ts.zipIdx (n + 1)) := (proper_append _ _).symm
        _ ~ proper (stack ++ (t :: ts).zipIdx n) := (hmiddle.filter _).symm
    · refine List.pairwise_append.2 ⟨hmoves.ordered, hordered, ?_⟩
      intro p hp q hq hoperand
      -- an operand that comes later is read later, since none is held back
      have hlater := (List.mem_filter.1 (hperm.mem_iff.1 hq)).1
      rcases List.mem_append.1 hlater with hq | hq
      · rw [Token.isOperand_of_isHeld (hmoves.isHeld q hq)] at hoperand
        cases hoperand
      · exact Nat.lt_of_lt_of_le (hplaced p hp) (List.mem_zipIdx hq).1

/-! ### Token lists -/

/-- A name of a function has the rank of functions. -/
theorem Token.IsRanked.classify {t : Token} (h : t.IsRanked) : t.classify.IsRanked := by
  rw [Token.classify]
  split
  · rename_i hname
    intro _
    obtain ⟨f, hf⟩ := Option.isSome_iff_exists.1 hname.2
    exact ⟨3, by rw [Func.ofSymbol?_eq_some.1 hf, rank?_function]⟩
  · exact h

/-- The operands of an ordered arrangement stand as they do in the text. -/
theorem filter_isOperand {placed : List (Token × Nat)}
    (hperm : placed ~ proper ts.zipIdx) (hordered : Ordered placed) :
    (placed.map Prod.fst).filter Token.isOperand = ts.filter Token.isOperand := by
  have hproper : (proper ts.zipIdx).filter (·.1.isOperand) = ts.zipIdx.filter (·.1.isOperand) := by
    rw [proper, List.filter_filter]
    apply List.filter_congr
    rintro ⟨⟨kind, text⟩, n⟩ -
    cases kind <;> rfl
  have hincreasing : ts.zipIdx.Pairwise fun p q => p.2 < q.2 := by
    rw [← List.pairwise_map (f := Prod.snd), List.zipIdx_map_snd]
    exact List.pairwise_lt_range'
  have hplaced : (placed.filter (·.1.isOperand)).Pairwise fun p q => p.2 < q.2 :=
    (hordered.filter _).imp_of_mem fun _ hq h => h (List.mem_filter.1 hq).2
  -- the same pairs in the same order of their positions
  have hsame : placed.filter (·.1.isOperand) = ts.zipIdx.filter (·.1.isOperand) := by
    refine List.Perm.eq_of_pairwise ?_ hplaced (hincreasing.filter _) ?_
    · intro p q _ _ hpq hqp
      exact absurd hpq (Nat.lt_asymm hqp)
    · rw [← hproper]
      exact hperm.filter _
  have htokens (ps : List (Token × Nat)) :
      (ps.map Prod.fst).filter Token.isOperand = (ps.filter (·.1.isOperand)).map Prod.fst :=
    List.filter_map
  rw [htokens, hsame, ← htokens, List.zipIdx_map_fst]

/-- **Reordering loses, repeats and swaps no operands.**  Any tokens with ranks give a sequence of
the tokens that are no parentheses, and what stands before an operand in it has come before it. -/
theorem toPostfix_order (tokens : List Token) (h : ∀ t ∈ tokens, t.IsRanked) :
    ∃ out, toPostfix tokens = .ok out ∧
      out ~ ((tokens.map Token.classify).filter fun t => !t.isParenthesis) ∧
      out.filter Token.isOperand = (tokens.map Token.classify).filter Token.isOperand ∧
      ∃ placed, placed.map Prod.fst = out ∧
        placed ~ proper (tokens.map Token.classify).zipIdx ∧ Ordered placed := by
  have hranked : ∀ u ∈ tokens.map Token.classify, u.IsRanked := by
    rw [List.forall_mem_map]
    exact fun t ht => (h t ht).classify
  have hempty : ∀ u ∈ ([] : List Token), u.Holds := by simp
  obtain ⟨out, hout⟩ := exists_postfixFrom hempty hranked
  obtain ⟨placed, rfl, hperm, hordered⟩ :=
    exists_placed (List.forall_mem_nil _) (n := 0) (List.forall_mem_nil _) hout
  refine ⟨_, hout, ?_, filter_isOperand hperm hordered, placed, rfl, hperm, hordered⟩
  have hproper : (proper (tokens.map Token.classify).zipIdx).map Prod.fst =
      (tokens.map Token.classify).filter fun t => !t.isParenthesis := by
    conv_rhs => rw [← List.zipIdx_map_fst 0 (tokens.map Token.classify), List.filter_map]
    rfl
  rw [← hproper]
  exact hperm.map Prod.fst

/-- The text `) b + sin ( b - 2 (`, with parentheses that match none. -/
def strayTokens : List Token :=
  [.closing, ⟨.identifier, "b"⟩, .ofOperator .plus, ⟨.identifier, "sin"⟩, .opening,
    ⟨.identifier, "b"⟩, .ofOperator .minus, ⟨.number, "2"⟩, .opening]

theorem toPostfix_strayTokens : (∀ t ∈ strayTokens, t.IsRanked) ∧
    ∃ out, toPostfix strayTokens = .ok out ∧
      out.filter Token.isOperand = [⟨.identifier, "b"⟩, ⟨.identifier, "b"⟩, ⟨.number, "2"⟩] := by
  have hranked : ∀ t ∈ strayTokens, t.IsRanked := by
    simp [strayTokens, Token.IsRanked, Token.closing, Token.opening, Token.ofOperator,
      rank?_operator]
  obtain ⟨out, hout, -, hoperands, -⟩ := toPostfix_order strayTokens hranked
  exact ⟨hranked, out, hout, hoperands⟩

end Formula
