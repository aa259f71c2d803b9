import Formula.Proofs.Postfix.Order
import Formula.Proofs.Token.WellNested
import Mathlib

/-!
Which parenthesis a closing one takes off the stack.  The stack is followed with the positions of its
tokens in the text (`advanceAt`, `exists_stackAt`), so that parentheses are told apart.  The ones on
it are those that are still open in what has been read (`Pending.stackAt`), since a symbol releases
no parenthesis, and a closing one drops the topmost, which is the one that it matches.

Main statement: a text balances exactly if its parentheses are well nested, and then every closing
parenthesis finds the one that it matches in the text on the stack, and none is left in the end
(`parentheses_paired`).
-/

namespace Formula

/-! ### The stack with positions -/

/-- What a token leaves on the stack, each token with its position. -/
def advanceAt (stack : List (Token × Nat)) (p : Token × Nat) : Except Fault (List (Token × Nat)) :=
  match p.1.kind with
  | .number | .identifier => .ok stack
  | .leftParen => .ok (p :: stack)
  | .rightParen => .ok ((stack.dropWhile (·.1.kind != .leftParen)).drop 1)
  | .operator | .function => do
    let (released, _) ← release p.1.text (stack.map Prod.fst)
    return p :: stack.drop released.length

/-- What tokens leave on the stack, read from a position on. -/
def stackAt (stack : List (Token × Nat)) (position : Nat) (ts : List Token) :
    Except Fault (List (Token × Nat)) :=
  (ts.zipIdx position).foldlM advanceAt stack

variable {stack held : List (Token × Nat)} {read ts rest out kept : List Token} {t : Token}
  {position : Nat}

theorem stackAt_cons : stackAt stack position (t :: ts) =
    advanceAt stack (t, position) >>= fun held => stackAt held (position + 1) ts := rfl

/-- Without the positions, the stack is the one of the reordering. -/
theorem exists_advanceAt (h : advance (stack.map Prod.fst) t = .ok (out, kept)) (position : Nat) :
    ∃ held, advanceAt stack (t, position) = .ok held ∧ held.map Prod.fst = kept := by
  cases advances_iff.1 h with
  | operand ht => exact ⟨stack, by rcases ht with ht | ht <;> simp [advanceAt, ht], rfl⟩
  | opening ht => exact ⟨(t, position) :: stack, by simp [advanceAt, ht], rfl⟩
  | closing ht =>
    have hstep : advanceAt stack (t, position) =
        .ok ((stack.dropWhile (·.1.kind != .leftParen)).drop 1) := by
      simp only [advanceAt, ht]
    refine ⟨_, hstep, ?_⟩
    rw [releaseGroup, List.dropWhile_map, List.map_drop]
    rfl
  | symbol ht hrelease =>
    have hstep : advanceAt stack (t, position) = .ok ((t, position) :: stack.drop out.length) := by
      rcases ht with ht | ht <;> simp only [advanceAt, ht, hrelease, ok_bind, pure_eq_ok]
    refine ⟨_, hstep, ?_⟩
    rw [List.map_cons, List.map_drop, ← append_of_release hrelease, List.drop_left]

theorem exists_stackAt (h : Shunts (stack.map Prod.fst) ts out kept) (position : Nat) :
    ∃ held, stackAt stack position ts = .ok held ∧ held.map Prod.fst = kept := by
  induction ts generalizing stack out position with
  | nil =>
    obtain ⟨-, rfl⟩ := Shunts.nil_iff.1 h
    exact ⟨stack, rfl, rfl⟩
  | cons t ts ih =>
    obtain ⟨first, between, more, hstep, hrun, rfl⟩ := Shunts.cons_iff.1 h
    obtain ⟨next, hnext, rfl⟩ := exists_advanceAt hstep position
    rw [stackAt_cons, hnext, ok_bind]
    exact ih hrun (position + 1)

/-! ### The parentheses on the stack -/

/-- The positions of the opening parentheses on a stack, the topmost first. -/
def openAt (stack : List (Token × Nat)) : List Nat :=
  (stack.filter (·.1.kind == .leftParen)).map Prod.snd

theorem openAt_cons_of_ne (ht : t.kind ≠ .leftParen) (position : Nat) (stack : List (Token × Nat)) :
    openAt ((t, position) :: stack) = openAt stack := by
  simp [openAt, ht]

theorem openAt_group (stack : List (Token × Nat)) :
    openAt ((stack.dropWhile (·.1.kind != .leftParen)).drop 1) = (openAt stack).tail := by
  induction stack with
  | nil => rfl
  | cons top stack ih =>
    by_cases htop : top.1.kind = .leftParen
    · simp [openAt, htop]
    · rw [openAt_cons_of_ne htop, ← ih]
      simp [htop]

/-- No parenthesis is among the tokens that a symbol releases. -/
theorem openAt_drop {symbol : String} {released : List Token}
    (h : release symbol (stack.map Prod.fst) = .ok (released, kept)) :
    openAt (stack.drop released.length) = openAt stack := by
  have hreleased : (stack.take released.length).map Prod.fst = released := by
    rw [List.map_take, ← append_of_release h, List.take_left]
  have hnone : (stack.take released.length).filter (·.1.kind == .leftParen) = [] := by
    refine List.filter_eq_nil_iff.2 fun p hp => ?_
    have hmem : p.1 ∈ released := hreleased ▸ List.mem_map_of_mem hp
    simpa using ne_leftParen_of_release h p.1 hmem
  conv_rhs => rw [← List.take_append_drop released.length stack]
  rw [openAt, openAt, List.filter_append, hnone, List.nil_append]

/-- **The parentheses on the stack are those that are open**, one step on. -/
theorem Pending.advanceAt (h : Pending Token.parenthesis? read (openAt stack))
    (hbalanced : Formula.balancedFrom 0 (Token.parentheses (read ++ t :: rest)) = true)
    (hstep : advanceAt stack (t, read.length) = .ok held) :
    Pending Token.parenthesis? (read ++ [t]) (openAt held) := by
  unfold Formula.advanceAt at hstep
  split at hstep
  case h_1 | h_2 =>
    rename_i hkind
    cases hstep
    exact h.other (Token.parenthesis?_eq_none.2 (by simp_all))
  case h_3 =>
    rename_i hkind
    cases hstep
    have hopen : openAt ((t, read.length) :: stack) = read.length :: openAt stack := by
      simp_all [openAt]
    rw [hopen]
    exact h.opened (Token.parenthesis?_eq_opening.2 hkind)
  case h_4 =>
    rename_i hkind
    cases hstep
    have hclose := Token.parenthesis?_eq_closing.2 hkind
    obtain ⟨position, others, hopen⟩ := h.exists_of_closing hclose hbalanced
    rw [hopen] at h
    rw [openAt_group, hopen]
    exact h.closing hclose
  case h_5 | h_6 =>
    rename_i hkind
    obtain ⟨⟨released, kept⟩, hrelease, hstep⟩ := bind_eq_ok.1 hstep
    cases hstep
    have hne : t.kind ≠ .leftParen ∧ t.kind ≠ .rightParen := by simp_all
    rw [openAt_cons_of_ne hne.1, openAt_drop hrelease]
    exact h.other (Token.parenthesis?_eq_none.2 hne)

/-- **The parentheses on the stack are those that are open**, at every moment of a run. -/
theorem Pending.stackAt (h : Pending Token.parenthesis? read (openAt stack))
    (hbalanced : Formula.balancedFrom 0 (Token.parentheses (read ++ (ts ++ rest))) = true)
    (hrun : stackAt stack read.length ts = .ok held) :
    Pending Token.parenthesis? (read ++ ts) (openAt held) := by
  induction ts generalizing read stack with
  | nil =>
    cases hrun
    rwa [List.append_nil]
  | cons t ts ih =>
    rw [stackAt_cons] at hrun
    obtain ⟨next, hstep, hrun⟩ := bind_eq_ok.1 hrun
    rw [List.cons_append] at hbalanced
    have hnext := h.advanceAt hbalanced hstep
    rw [List.append_cons] at hbalanced ⊢
    refine ih hnext hbalanced ?_
    rwa [List.length_append, List.length_singleton]

/-! ### Matching parentheses -/

/-- Among some items there are two matching parentheses: behind what is before the first one and
before what is behind the second one, with something well nested between them. -/
def Matches {α : Type} (shape : α → Option Char) (items outer inner rest : List α) : Prop :=
  ∃ a b, items = outer ++ a :: (inner ++ b :: rest) ∧ shape a = some '(' ∧ shape b = some ')' ∧
    WellNested (inner.filterMap shape)

/-- Items with the same parentheses can be cut at the same one. -/
theorem exists_of_filterMap {α : Type} {shape : α → Option Char} {items : List α}
    {front back : List Char} {c : Char} (h : items.filterMap shape = front ++ c :: back) :
    ∃ before a after, items = before ++ a :: after ∧ shape a = some c ∧
      before.filterMap shape = front ∧ after.filterMap shape = back := by
  obtain ⟨before, others, rfl, hbefore, hothers⟩ := List.filterMap_eq_append_iff.1 h
  obtain ⟨between, a, after, rfl, hnone, ha, hafter⟩ := List.filterMap_eq_cons_iff.1 hothers
  refine ⟨before ++ between, a, after, (List.append_assoc _ _ _).symm, ha, ?_, hafter⟩
  rw [List.filterMap_append, hbefore, List.filterMap_eq_nil_iff.2 hnone, List.append_nil]

/-- Items with the same parentheses have the same matching ones. -/
theorem Matches.transfer {α β : Type} {shape : α → Option Char} {shape' : β → Option Char}
    {items outer inner rest : List α} {items' : List β} (h : Matches shape items outer inner rest)
    (hsame : items'.filterMap shape' = items.filterMap shape) :
    ∃ outer' inner' rest', Matches shape' items' outer' inner' rest' ∧
      outer'.filterMap shape' = outer.filterMap shape ∧
      inner'.filterMap shape' = inner.filterMap shape ∧
      rest'.filterMap shape' = rest.filterMap shape := by
  obtain ⟨a, b, rfl, ha, hb, hinner⟩ := h
  rw [List.filterMap_append, List.filterMap_cons_some ha, List.filterMap_append,
    List.filterMap_cons_some hb] at hsame
  obtain ⟨outer', a', others, rfl, ha', houter, hothers⟩ := exists_of_filterMap hsame
  obtain ⟨inner', b', rest', rfl, hb', hinner', hrest⟩ := exists_of_filterMap hothers
  exact ⟨outer', inner', rest', ⟨a', b', rfl, ha', hb', hinner' ▸ hinner⟩, houter, hinner', hrest⟩

/-- The topmost opening parenthesis cuts a stack. -/
theorem exists_of_openAt {positions : List Nat} (h : openAt stack = position :: positions) :
    ∃ above paren base, stack = above ++ (paren, position) :: base ∧ paren.kind = .leftParen ∧
      ∀ p ∈ above, p.1.kind ≠ .leftParen := by
  obtain ⟨⟨paren, n⟩, others, hfilter, rfl, -⟩ := List.map_eq_cons_iff.1 h
  obtain ⟨above, base, rfl, habove, hparen, -⟩ := List.filter_eq_cons_iff.1 hfilter
  exact ⟨above, paren, base, rfl, by simpa using hparen, fun p hp => by simpa using habove p hp⟩

/-! ### Reordering a text -/

/-- Once some tokens have been read, a closing parenthesis takes the opening one at a position off
the stack, and releases what has been held back above that. -/
def Drops (read : List Token) (t : Token) (position : Nat) : Prop :=
  ∃ out above paren base, stackAt [] 0 read = .ok (above ++ (paren, position) :: base) ∧
    paren.kind = .leftParen ∧ (∀ p ∈ above, p.1.kind ≠ .leftParen) ∧
    Shunts [] read out ((above ++ (paren, position) :: base).map Prod.fst) ∧
    advance ((above ++ (paren, position) :: base).map Prod.fst) t =
      .ok (above.map Prod.fst, base.map Prod.fst)

/-- A closing parenthesis drops the topmost opening one, wherever that stands. -/
theorem Drops.head?_openAt (h : Drops read t position) (hstack : stackAt [] 0 read = .ok stack) :
    (openAt stack).head? = some position := by
  obtain ⟨out, above, paren, base, hread, hparen, habove, -, -⟩ := h
  obtain rfl := Except.ok.inj (hstack.symm.trans hread)
  have hnone : above.filter (·.1.kind == .leftParen) = [] :=
    List.filter_eq_nil_iff.2 fun p hp => by simpa using habove p hp
  simp [openAt, List.filter_append, hnone, hparen]

section Reordering

variable (hts : ∀ u ∈ read, u.IsRanked)

include hts

/-- Tokens with ranks can be read, and what is open is on the stack. -/
theorem exists_pending
    (hbalanced : balancedFrom 0 (Token.parentheses (read ++ rest)) = true) :
    ∃ out stack, stackAt [] 0 read = .ok stack ∧ Shunts [] read out (stack.map Prod.fst) ∧
      Pending Token.parenthesis? read (openAt stack) := by
  have hempty : ∀ u ∈ ([] : List Token), u.Holds := by simp
  obtain ⟨first, hfirst⟩ := exists_postfixFrom hempty hts
  obtain ⟨out, kept, hrun, -⟩ := exists_shunts hfirst
  have hrunAt : Shunts (([] : List (Token × Nat)).map Prod.fst) read out kept := hrun
  obtain ⟨stack, hstack, rfl⟩ := exists_stackAt hrunAt 0
  have hnone : Pending Token.parenthesis? [] (openAt []) := .closed .nil
  exact ⟨out, stack, hstack, hrun, hnone.stackAt hbalanced hstack⟩

/-- **A closing parenthesis drops the one that it matches.** -/
theorem exists_drops (ht : t.kind = .rightParen)
    (hbalanced : balancedFrom 0 (Token.parentheses (read ++ t :: rest)) = true) :
    ∃ outer inner, Matches Token.parenthesis? (read ++ t :: rest) outer inner rest ∧
      Drops read t outer.length := by
  obtain ⟨out, stack, hstack, hrun, hpending⟩ := exists_pending hts hbalanced
  have hclose := Token.parenthesis?_eq_closing.2 ht
  obtain ⟨position, others, hopen⟩ := hpending.exists_of_closing hclose hbalanced
  obtain ⟨above, paren, base, rfl, hparen, habove⟩ := exists_of_openAt hopen
  rw [hopen] at hpending
  cases hpending with
  | @opening outer inner a _ _ ha hinner =>
    refine ⟨outer, inner, ⟨a, t, by simp, ha, hclose, hinner⟩,
      out, above, paren, base, hstack, hparen, habove, hrun, ?_⟩
    have hkinds : ∀ u ∈ above.map Prod.fst, u.kind ≠ .leftParen := List.forall_mem_map.2 habove
    have hgroup : releaseGroup (above.map Prod.fst ++ paren :: base.map Prod.fst) =
        (above.map Prod.fst, base.map Prod.fst) := releaseGroup_append hkinds hparen
    rw [List.map_append, List.map_cons]
    simp only [advance, ht, hgroup]

/-- **In the end all of the stack is released**, as no parenthesis is left on it. -/
theorem exists_drained (hbalanced : balancedFrom 0 (Token.parentheses read) = true) :
    ∃ out stack, Shunts [] read out stack ∧ (∀ t ∈ stack, t.kind ≠ .leftParen) ∧
      postfixFrom [] read = .ok (out ++ stack) := by
  rw [← List.append_nil read] at hbalanced
  obtain ⟨out, stack, -, hrun, hpending⟩ := exists_pending hts hbalanced
  rw [List.append_nil] at hbalanced
  have hnone : (stack.filter (·.1.kind == .leftParen)) = [] :=
    List.map_eq_nil_iff.1 (hpending.opens_eq_nil hbalanced)
  have hkinds : ∀ t ∈ stack.map Prod.fst, t.kind ≠ .leftParen :=
    List.forall_mem_map.2 fun p hp => by simpa using List.filter_eq_nil_iff.1 hnone p hp
  refine ⟨out, stack.map Prod.fst, hrun, hkinds, ?_⟩
  rw [hrun.postfixFrom_eq, List.filter_eq_self.2 fun t ht => bne_iff_ne.2 (hkinds t ht)]

end Reordering

theorem parenthesis?_classify (t : Token) : t.classify.parenthesis? = t.parenthesis? := by
  rw [Token.classify]
  split
  · rename_i h
    simp [Token.parenthesis?, h.1]
  · rfl

/-- Reordering reads the parentheses of the text: no sign and no name of a function is one. -/
theorem parentheses_completeSigns (ts : List Token) :
    Token.parentheses ((completeSigns ts).map Token.classify) = Token.parentheses ts := by
  have hzeros (opens : Bool) :
      Token.parentheses (insertZeros opens ts) = Token.parentheses ts := by
    have hzero : Token.zero.parenthesis? = none := rfl
    induction ts generalizing opens with
    | nil => rfl
    | cons t ts ih =>
      simp only [Token.parentheses, insertZeros] at ih ⊢
      split <;> simp only [List.filterMap_cons, hzero, ih]
  rw [← hzeros true, Token.parentheses, Token.parentheses, List.filterMap_map]
  exact List.filterMap_congr fun t _ => parenthesis?_classify t

/-- **The check for balance makes every pair of parentheses meet on the stack.**  A text balances
exactly if its parentheses are a word of the grammar `W → ε | ( W ) W`.  If it has tokens, then for
each closing parenthesis that the reordering reads there is the one that it matches, both among the
tokens and in the text, and this is the one that it takes off the stack.  In the end no parenthesis
is left, so that all of the stack is released. -/
theorem parentheses_paired (source : String) :
    (isBalanced source = true ↔ WellNested (parentheses source.toList)) ∧
    ∀ tokens, tokenize source = .ok tokens →
      (∀ before t after, (completeSigns tokens).map Token.classify = before ++ t :: after →
        t.kind = .rightParen →
        ∃ outer inner front inside back,
          Matches Token.parenthesis? (before ++ t :: after) outer inner after ∧
          Matches parenthesis? source.toList front inside back ∧
          parentheses front = Token.parentheses outer ∧
          parentheses inside = Token.parentheses inner ∧
          parentheses back = Token.parentheses after ∧ Drops before t outer.length) ∧
      ∃ out stack, Shunts [] ((completeSigns tokens).map Token.classify) out stack ∧
        (∀ t ∈ stack, t.kind ≠ .leftParen) ∧
        toPostfix (completeSigns tokens) = .ok (out ++ stack) := by
  refine ⟨isBalanced_iff_wellNested source, fun tokens htokens => ?_⟩
  obtain ⟨hbalanced, hlex⟩ := tokenize_ok_iff.1 htokens
  have hword : parentheses source.toList =
      Token.parentheses ((completeSigns tokens).map Token.classify) := by
    rw [parentheses_completeSigns, parentheses_of_spelling (spelling_of_lex hlex)]
  have hranked : ∀ u ∈ (completeSigns tokens).map Token.classify, u.IsRanked := fun u hu =>
    (arranged_of_tokenize htokens u hu).isRanked
  rw [isBalanced, ← balancedFrom_parentheses, hword] at hbalanced
  refine ⟨fun before t after hts ht => ?_, exists_drained hranked hbalanced⟩
  rw [hts] at hword hranked hbalanced
  have hbefore := (List.forall_mem_append.1 hranked).1
  obtain ⟨outer, inner, hmatches, hdrops⟩ := exists_drops hbefore ht hbalanced
  obtain ⟨front, inside, back, htext, hfront, hinside, hback⟩ := hmatches.transfer hword
  exact ⟨outer, inner, front, inside, back, hmatches, htext, hfront, hinside, hback, hdrops⟩

/-- The tokens of `a*(-(b)+c)` up to the last one, with the zero before the sign. -/
def pairedTokens : List Token :=
  [⟨.identifier, "a"⟩, .ofOperator .times, .opening, .zero, .ofOperator .minus, .opening,
    ⟨.identifier, "b"⟩, .closing, .ofOperator .plus, ⟨.identifier, "c"⟩]

/-- The last parenthesis drops the first one. -/
theorem parentheses_pairedTokens :
    (∃ tokens, tokenize "a*(-(b)+c)" = .ok tokens ∧
      (completeSigns tokens).map Token.classify = pairedTokens ++ [.closing]) ∧
      Token.closing.kind = .rightParen ∧ Drops pairedTokens .closing 2 := by
  obtain ⟨tokens, htokens, hread⟩ : ∃ tokens, tokenize "a*(-(b)+c)" = .ok tokens ∧
      (completeSigns tokens).map Token.classify = pairedTokens ++ [.closing] :=
    ⟨_, by cbv, by decide⟩
  obtain ⟨-, hpaired⟩ := parentheses_paired "a*(-(b)+c)"
  obtain ⟨outer, -, -, -, -, -, -, -, -, -, hdrops⟩ := (hpaired tokens htokens).1 _ _ _ hread rfl
  have hstack : stackAt [] 0 pairedTokens =
      .ok [(.ofOperator .plus, 8), (.opening, 2), (.ofOperator .times, 1)] := by
    decide
  have hposition : some 2 = some outer.length := hdrops.head?_openAt hstack
  rw [← Option.some.inj hposition] at hdrops
  exact ⟨⟨tokens, htokens, hread⟩, rfl, hdrops⟩

end Formula
