import Formula.Proofs.Postfix.Order
import Mathlib.Data.List.Perm.Subperm

/-!
The ranks on the stack of the reordering.  A symbol is held back only above symbols that bind less
tightly, for it has released all others, and an opening parenthesis begins anew.  So the symbols of
a stack bind ever tighter from one opening parenthesis to the next (`Climbs`), which every step
keeps (`Climbs.advance`).

Main statement: whenever tokens with ranks have been read, the symbols between parentheses on the
stack have strictly increasing ranks towards the top, at most four of them, and the next token has
no ranks looked up but those of symbols that have one (`toPostfix_ascending`).
-/

namespace Formula

/-! ### Stacks that climb -/

/-- The symbols on a stack bind ever tighter towards the top, from one opening parenthesis to the
next. -/
inductive Climbs : List Token → Prop
  | nil : Climbs []
  | opening {t : Token} {stack : List Token} (ht : t.kind = .leftParen) (h : Climbs stack) :
      Climbs (t :: stack)
  | symbol {t : Token} {stack : List Token} {n : Nat} (ht : t.kind = .operator ∨ t.kind = .function)
      (hrank : rank? t.text = some n) (hbelow : Admits n stack) (h : Climbs stack) :
      Climbs (t :: stack)

variable {stack released kept out ts level below : List Token} {t : Token} {symbol : String}
  {n : Nat}

namespace Climbs

theorem suffix (h : Climbs stack) (hsuffix : below <:+ stack) : Climbs below := by
  induction h with
  | nil =>
    rw [List.suffix_nil.1 hsuffix]
    exact .nil
  | opening ht hrest ih =>
    rcases List.suffix_cons_iff.1 hsuffix with rfl | hsuffix
    · exact .opening ht hrest
    · exact ih hsuffix
  | symbol ht hrank hbelow hrest ih =>
    rcases List.suffix_cons_iff.1 hsuffix with rfl | hsuffix
    · exact .symbol ht hrank hbelow hrest
    · exact ih hsuffix

/-- A stack that climbs holds parentheses and symbols with ranks. -/
theorem holds (h : Climbs stack) : ∀ t ∈ stack, t.Holds := by
  induction h with
  | nil => simp
  | opening ht _ ih => exact List.forall_mem_cons.2 ⟨.inl ht, ih⟩
  | symbol _ hrank _ _ ih => exact List.forall_mem_cons.2 ⟨.inr ⟨_, hrank⟩, ih⟩

/-- The tokens on a stack that climbs are opening parentheses, operators and functions. -/
theorem kind (h : Climbs stack) :
    ∀ t ∈ stack, t.kind = .leftParen ∨ t.kind = .operator ∨ t.kind = .function := by
  induction h with
  | nil => simp
  | opening ht _ ih => exact List.forall_mem_cons.2 ⟨.inl ht, ih⟩
  | symbol ht _ _ _ ih => exact List.forall_mem_cons.2 ⟨.inr ht, ih⟩

/-! ### Steps and runs -/

/-- What a symbol keeps on a stack that climbs admits it. -/
theorem release (h : Climbs stack) (hsymbol : rank? symbol = some n)
    (hrelease : release symbol stack = .ok (released, kept)) : Climbs kept ∧ Admits n kept := by
  have hnew : rankOf symbol = .ok n := by simp only [rankOf, hsymbol]
  induction h generalizing released with
  | nil =>
    cases hrelease
    exact ⟨.nil, trivial⟩
  | opening ht hrest _ =>
    rw [Formula.release, if_pos ht] at hrelease
    cases hrelease
    exact ⟨.opening ht hrest, .inl ht⟩
  | @symbol top below m ht hrank hbelow hrest ih =>
    have hparen : top.kind ≠ .leftParen := by rcases ht with ht | ht <;> simp [ht]
    have hheld : rankOf top.text = .ok m := by simp only [rankOf, hrank]
    rw [Formula.release, if_neg hparen, hnew, hheld] at hrelease
    simp only [ok_bind] at hrelease
    split at hrelease
    · rename_i hlt
      cases hrelease
      exact ⟨.symbol ht hrank hbelow hrest, .inr ⟨m, hrank, hlt⟩⟩
    · obtain ⟨⟨more, last⟩, hmore, hrelease⟩ := bind_eq_ok.1 hrelease
      cases hrelease
      exact ih hmore

/-- **A step keeps a stack climbing.** -/
theorem advance (h : Climbs stack) (ht : t.IsRanked)
    (hadvance : advance stack t = .ok (out, kept)) : Climbs kept := by
  cases advances_iff.1 hadvance with
  | operand _ => exact h
  | opening hkind => exact .opening hkind h
  | closing _ =>
    exact h.suffix ((List.drop_suffix 1 _).trans (List.dropWhile_suffix _))
  | symbol hkind hrelease =>
    obtain ⟨n, hrank⟩ := ht hkind
    obtain ⟨hkept, hadmits⟩ := h.release hrank hrelease
    exact .symbol hkind hrank hadmits hkept

/-- **A run keeps a stack climbing.** -/
theorem shunts (h : Climbs stack) (hts : ∀ t ∈ ts, t.IsRanked) (hrun : Shunts stack ts out kept) :
    Climbs kept := by
  induction ts generalizing stack out with
  | nil =>
    obtain ⟨rfl, rfl⟩ := Shunts.nil_iff.1 hrun
    exact h
  | cons t ts ih =>
    obtain ⟨ht, hts⟩ := List.forall_mem_cons.1 hts
    obtain ⟨first, between, rest, hstep, hrest, rfl⟩ := Shunts.cons_iff.1 hrun
    exact ih (h.advance ht hstep) hts hrest

end Climbs

/-! ### Between two parentheses -/

/-- All tokens have ranks, and these decrease strictly from the first token on. -/
def Descends (level : List Token) : Prop :=
  ∃ ranks : List Nat, (level.map fun t => rank? t.text) = ranks.map some ∧ ranks.Pairwise (· > ·)

/-- Between two parentheses a stack that climbs descends from its top. -/
theorem Climbs.descends (h : Climbs (level ++ below)) (hlevel : ∀ t ∈ level, t.kind ≠ .leftParen) :
    Descends level := by
  induction level with
  | nil => exact ⟨[], rfl, .nil⟩
  | cons t level ih =>
    obtain ⟨ht, hlevel⟩ := List.forall_mem_cons.1 hlevel
    cases h with
    | opening hparen _ => exact absurd hparen ht
    | @symbol _ _ n _ hrank hbelow hrest =>
      obtain ⟨ranks, hranks, hpairwise⟩ := ih hrest hlevel
      refine ⟨n :: ranks, by rw [List.map_cons, List.map_cons, hrank, hranks], ?_⟩
      cases level with
      | nil =>
        obtain rfl : ranks = [] := by simpa using hranks.symm
        exact List.pairwise_singleton _ n
      | cons u level =>
        -- the token below binds less tightly, and those below it even less
        obtain ⟨m, hu, hlt⟩ := hbelow.resolve_left (List.forall_mem_cons.1 hlevel).1
        obtain ⟨ranks, rfl⟩ : ∃ tail, ranks = m :: tail := by
          cases ranks with
          | nil => simp at hranks
          | cons r ranks =>
            simp only [List.map_cons, List.cons.injEq, hu, Option.some.injEq] at hranks
            exact ⟨ranks, by rw [hranks.1]⟩
        obtain ⟨hhead, -⟩ := List.pairwise_cons.1 hpairwise
        refine List.pairwise_cons.2 ⟨List.forall_mem_cons.2 ⟨hlt, ?_⟩, hpairwise⟩
        exact fun r hr => Nat.lt_trans (hhead r hr) hlt

theorem rank?_lt {symbol : String} (h : rank? symbol = some n) : n < 4 := by
  unfold rank? at h
  split at h
  · rename_i op _
    cases h
    cases op <;> decide
  · split at h
    · cases h
      decide
    · cases h

/-- There are only four ranks. -/
theorem Descends.length_le (h : Descends level) : level.length ≤ 4 := by
  obtain ⟨ranks, hranks, hpairwise⟩ := h
  have hbound : ranks ⊆ List.range 4 := by
    intro n hn
    have hmem : some n ∈ level.map fun t => rank? t.text := by
      rw [hranks]
      exact List.mem_map_of_mem hn
    obtain ⟨t, -, ht⟩ := List.mem_map.1 hmem
    exact List.mem_range.2 (rank?_lt ht)
  have hnodup : ranks.Nodup := hpairwise.imp Nat.ne_of_gt
  have hlength := congrArg List.length hranks
  rw [List.length_map, List.length_map] at hlength
  calc level.length = ranks.length := hlength
    _ ≤ (List.range 4).length := (List.subperm_of_subset hnodup hbound).length_le
    _ = 4 := List.length_range

/-! ### Ranks that are looked up -/

/-- The symbols whose ranks are looked up to find out what a symbol releases: its own and that of
the top of the stack, for one token after the other, until one is missing or binds less tightly. -/
def lookedUp (symbol : String) : List Token → List String
  | [] => []
  | top :: stack =>
    if top.kind = .leftParen then []
    else
      match rank? symbol, rank? top.text with
      | none, _ => [symbol]
      | some _, none => [symbol, top.text]
      | some new, some held =>
        symbol :: top.text :: if held < new then [] else lookedUp symbol stack

/-- A symbol can be handled exactly if all ranks that are looked up for it are there. -/
theorem exists_release_iff : (∃ result, release symbol stack = .ok result) ↔
    ∀ s ∈ lookedUp symbol stack, (rank? s).isSome = true := by
  induction stack with
  | nil => exact iff_of_true ⟨_, rfl⟩ (by simp [lookedUp])
  | cons top stack ih =>
    rw [release, lookedUp]
    by_cases hparen : top.kind = .leftParen
    · rw [if_pos hparen, if_pos hparen]
      exact iff_of_true ⟨_, rfl⟩ (by simp)
    rw [if_neg hparen, if_neg hparen, rankOf, rankOf]
    cases hnew : rank? symbol with
    | none => exact iff_of_false (by rintro ⟨result, ⟨⟩⟩) (by simp [hnew])
    | some new =>
      cases hheld : rank? top.text with
      | none => exact iff_of_false (by rintro ⟨result, ⟨⟩⟩) (by simp [hheld])
      | some held =>
        simp only [ok_bind, List.forall_mem_cons, hnew, hheld, Option.isSome_some, true_and]
        by_cases hlt : held < new
        · rw [if_pos hlt, if_pos hlt]
          exact iff_of_true ⟨_, rfl⟩ (by simp)
        · rw [if_neg hlt, if_neg hlt, ← ih]
          constructor
          · rintro ⟨result, h⟩
            obtain ⟨rest, hrest, -⟩ := bind_eq_ok.1 h
            exact ⟨rest, hrest⟩
          · rintro ⟨rest, hrest⟩
            exact ⟨_, by rw [hrest]; rfl⟩

/-- The symbols whose ranks are looked up when a token is read. -/
def Token.lookedUp (t : Token) (stack : List Token) : List String :=
  match t.kind with
  | .operator | .function => Formula.lookedUp t.text stack
  | _ => []

theorem isSome_of_advance (h : advance stack t = .ok (out, kept)) :
    ∀ s ∈ t.lookedUp stack, (rank? s).isSome = true := by
  cases advances_iff.1 h with
  | operand ht => rcases ht with ht | ht <;> simp [Token.lookedUp, ht]
  | opening ht => simp [Token.lookedUp, ht]
  | closing ht => simp [Token.lookedUp, ht]
  | symbol ht hrelease =>
    have hall := exists_release_iff.1 ⟨_, hrelease⟩
    rcases ht with ht | ht <;> simpa [Token.lookedUp, ht] using hall

/-! ### Every moment of a run -/

/-- Reading goes on from the stack that the tokens so far have left. -/
theorem Shunts.postfixFrom_append (h : Shunts stack ts out kept) {us rest : List Token}
    (hrest : postfixFrom kept us = .ok rest) :
    postfixFrom stack (ts ++ us) = .ok (out ++ rest) := by
  obtain ⟨more, last, hrun, rfl⟩ := exists_shunts hrest
  rw [(h.append hrun).postfixFrom_eq, List.append_assoc]

/-- **The stack is sorted between parentheses.**  After any of the tokens, what has been held back
are opening parentheses and symbols; those between two parentheses, or above the last one, have
strictly increasing ranks towards the top, and are four at most.  Reading the next token looks up no
rank that is missing, and so the reordering never fails. -/
theorem toPostfix_ascending {tokens before after : List Token} (h : ∀ t ∈ tokens, t.IsRanked)
    (hsplit : tokens = before ++ after) :
    ∃ out stack rest, Shunts [] (before.map Token.classify) out stack ∧
      postfixFrom stack (after.map Token.classify) = .ok rest ∧
      toPostfix tokens = .ok (out ++ rest) ∧
      (∀ t ∈ stack, t.kind = .leftParen ∨ t.kind = .operator ∨ t.kind = .function) ∧
      (∀ above level below, stack = above ++ (level ++ below) →
        (∀ t ∈ level, t.kind ≠ .leftParen) → Descends level ∧ level.length ≤ 4) ∧
      ∀ t ∈ after.head?, ∀ s ∈ t.classify.lookedUp stack, (rank? s).isSome = true := by
  have hranked : ∀ t ∈ tokens.map Token.classify, t.IsRanked := by
    rw [List.forall_mem_map]
    exact fun t ht => (h t ht).classify
  rw [hsplit, List.map_append, List.forall_mem_append] at hranked
  obtain ⟨hbefore, hafter⟩ := hranked
  have hempty : ∀ u ∈ ([] : List Token), u.Holds := by simp
  obtain ⟨first, hfirst⟩ := exists_postfixFrom hempty hbefore
  obtain ⟨out, stack, hrun, -⟩ := exists_shunts hfirst
  have hclimbs : Climbs stack := Climbs.nil.shunts hbefore hrun
  obtain ⟨rest, hrest⟩ := exists_postfixFrom hclimbs.holds hafter
  refine ⟨out, stack, rest, hrun, hrest, ?total, hclimbs.kind, ?sorted, ?ranks⟩
  case total =>
    rw [toPostfix, hsplit, List.map_append]
    exact hrun.postfixFrom_append hrest
  case sorted =>
    rintro above level below rfl hlevel
    have hdescends := (hclimbs.suffix (List.suffix_append above _)).descends hlevel
    exact ⟨hdescends, hdescends.length_le⟩
  case ranks =>
    intro t ht
    cases after with
    | nil => cases ht
    | cons u after =>
      cases ht
      obtain ⟨out', kept, hadvance, -⟩ :=
        exists_advance hclimbs.holds (List.forall_mem_cons.1 hafter).1
      exact isSome_of_advance hadvance

/-- The text `x ) + ( y - a * b ^ sin log`, with a parenthesis that closes none. -/
def steepTokens : List Token :=
  [⟨.identifier, "x"⟩, .closing, .ofOperator .plus, .opening, ⟨.identifier, "y"⟩,
    .ofOperator .minus, ⟨.identifier, "a"⟩, .ofOperator .times, ⟨.identifier, "b"⟩,
    .ofOperator .power, ⟨.identifier, "sin"⟩, ⟨.identifier, "log"⟩]

/-- What is held back above the parenthesis before the last token is read. -/
def steepLevel : List Token :=
  [.ofFunc .sin, .ofOperator .power, .ofOperator .times, .ofOperator .minus]

/-- There can be as many as four symbols between two parentheses. -/
theorem toPostfix_steepTokens : (∀ t ∈ steepTokens, t.IsRanked) ∧
    ∃ out, Shunts [] ((steepTokens.take 11).map Token.classify) out
        (steepLevel ++ [.opening, .ofOperator .plus]) ∧
      Descends steepLevel ∧ steepLevel.length = 4 := by
  have hranked : ∀ t ∈ steepTokens, t.IsRanked := by
    simp [steepTokens, Token.IsRanked, Token.closing, Token.opening, Token.ofOperator,
      rank?_operator]
  obtain ⟨out, stack, rest, hrun, -, -, -, hsorted, -⟩ :=
    toPostfix_ascending hranked (List.take_append_drop 11 steepTokens).symm
  have hsteep : shunt [] ((steepTokens.take 11).map Token.classify) =
      .ok ([⟨.identifier, "x"⟩, ⟨.identifier, "y"⟩, ⟨.identifier, "a"⟩, ⟨.identifier, "b"⟩],
        steepLevel ++ [.opening, .ofOperator .plus]) := by
    decide
  obtain ⟨rfl, rfl⟩ := Prod.mk.inj (Except.ok.inj (hsteep.symm.trans hrun))
  have hlevel : ∀ t ∈ steepLevel, t.kind ≠ .leftParen := by decide
  exact ⟨hranked, _, hrun, (hsorted [] steepLevel _ rfl hlevel).1, rfl⟩

end Formula
