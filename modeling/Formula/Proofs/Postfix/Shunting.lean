import Formula.Postfix.Parse
import Formula.Proofs.Result

/-!
Runs of the reordering from infix to postorder.  A run reads tokens one after the other
(`shunt`), and the reordering is a run and a release of all that the run has left on the stack
(`Shunts.postfixFrom_eq`).  Above a stack that admits a rank, a symbol of that rank releases exactly
the symbols that bind at least as tightly (`release_append`).  Tokens whose symbols have ranks can
be reordered (`exists_postfixFrom`).
-/

namespace Formula

/-! ### Steps -/

/-- What reading a token above a stack does: an operand goes to the sequence, an opening parenthesis
to the stack, a closing one releases its group, and a symbol is held back once it has released what
it may. -/
inductive Advances (stack : List Token) (t : Token) : List Token → List Token → Prop
  | operand (ht : t.kind = .number ∨ t.kind = .identifier) : Advances stack t [t] stack
  | opening (ht : t.kind = .leftParen) : Advances stack t [] (t :: stack)
  | closing (ht : t.kind = .rightParen) :
      Advances stack t (releaseGroup stack).1 (releaseGroup stack).2
  | symbol {released kept : List Token} (ht : t.kind = .operator ∨ t.kind = .function)
      (h : release t.text stack = .ok (released, kept)) : Advances stack t released (t :: kept)

theorem advances_iff {stack out kept : List Token} {t : Token} :
    advance stack t = .ok (out, kept) ↔ Advances stack t out kept := by
  constructor
  · intro h
    unfold advance at h
    split at h
    · rename_i hkind
      cases h
      exact .operand (.inl hkind)
    · rename_i hkind
      cases h
      exact .operand (.inr hkind)
    · rename_i hkind
      cases h
      exact .opening hkind
    · rename_i hkind
      cases h
      exact .closing hkind
    all_goals
      rename_i hkind
      obtain ⟨⟨released, rest⟩, hrelease, h⟩ := bind_eq_ok.1 h
      cases h
    · exact .symbol (.inl hkind) hrelease
    · exact .symbol (.inr hkind) hrelease
  · intro h
    cases h with
    | operand ht => rcases ht with ht | ht <;> simp [advance, ht]
    | opening ht => simp [advance, ht]
    | closing ht => simp [advance, ht]
    | symbol ht h => rcases ht with ht | ht <;> simp [advance, ht, h]

/-- A symbol releases nothing, or the top of the stack and what it releases below it. -/
theorem release_cons {symbol : String} {top : Token} {stack out kept : List Token}
    (h : release symbol (top :: stack) = .ok (out, kept)) :
    out = [] ∧ kept = top :: stack ∨
      top.kind ≠ .leftParen ∧
        ∃ released, release symbol stack = .ok (released, kept) ∧ out = top :: released := by
  rw [release] at h
  split at h
  · cases h
    exact .inl ⟨rfl, rfl⟩
  · rename_i hparen
    simp only [bind_eq_ok] at h
    obtain ⟨new, -, held, -, h⟩ := h
    split at h
    · cases h
      exact .inl ⟨rfl, rfl⟩
    · obtain ⟨⟨released, last⟩, hrelease, h⟩ := bind_eq_ok.1 h
      cases h
      exact .inr ⟨hparen, released, hrelease, rfl⟩

/-! ### Runs -/

/-- What reading tokens adds to the sequence, and the stack after them. -/
def shunt (stack : List Token) : List Token → Except Fault (List Token × List Token)
  | [] => .ok ([], stack)
  | t :: ts => do
    let (out, stack) ← advance stack t
    let (rest, stack) ← shunt stack ts
    return (out ++ rest, stack)

/-- Reading tokens above a stack adds `out` to the sequence and leaves another stack. -/
def Shunts (stack ts out stack' : List Token) : Prop := shunt stack ts = .ok (out, stack')

namespace Shunts

variable {stack stack' stack'' ts us out out' : List Token} {t : Token}

theorem nil : Shunts stack [] [] stack := rfl

theorem nil_iff : Shunts stack [] out stack' ↔ out = [] ∧ stack' = stack := by
  unfold Shunts
  simp only [shunt, Except.ok.injEq, Prod.mk.injEq, eq_comm]

/-- A run is a step and a run. -/
theorem cons_iff : Shunts stack (t :: ts) out stack' ↔
    ∃ first between rest, advance stack t = .ok (first, between) ∧
      Shunts between ts rest stack' ∧ out = first ++ rest := by
  unfold Shunts
  simp only [shunt, bind_eq_ok, pure_eq_ok, Prod.exists, Except.ok.injEq, Prod.mk.injEq]
  constructor
  · rintro ⟨first, between, h, rest, last, h', rfl, rfl⟩
    exact ⟨first, between, rest, h, h', rfl⟩
  · rintro ⟨first, between, rest, h, h', rfl⟩
    exact ⟨first, between, h, rest, stack', h', rfl, rfl⟩

theorem single (h : advance stack t = .ok (out, stack')) : Shunts stack [t] out stack' :=
  cons_iff.2 ⟨out, stack', [], h, nil, (List.append_nil out).symm⟩

theorem append (h : Shunts stack ts out stack') (h' : Shunts stack' us out' stack'') :
    Shunts stack (ts ++ us) (out ++ out') stack'' := by
  induction ts generalizing stack out with
  | nil =>
    obtain ⟨rfl, rfl⟩ := nil_iff.1 h
    exact h'
  | cons t ts ih =>
    obtain ⟨first, between, rest, hstep, hrun, rfl⟩ := cons_iff.1 h
    rw [List.append_assoc]
    exact cons_iff.2 ⟨first, between, _, hstep, ih hrun, rfl⟩

/-- Reordering to the end releases what a run has left on the stack. -/
theorem postfixFrom_eq (h : Shunts stack ts out stack') :
    postfixFrom stack ts = .ok (out ++ stack'.filter (·.kind != .leftParen)) := by
  induction ts generalizing stack out with
  | nil =>
    obtain ⟨rfl, rfl⟩ := nil_iff.1 h
    rfl
  | cons t ts ih =>
    obtain ⟨first, between, rest, hstep, hrun, rfl⟩ := cons_iff.1 h
    simp only [postfixFrom, hstep, ih hrun, ok_bind, pure_eq_ok, List.append_assoc]

end Shunts

/-- A reordering is a run and the release of what the run has left on the stack. -/
theorem exists_shunts {stack ts out : List Token} (h : postfixFrom stack ts = .ok out) :
    ∃ first kept, Shunts stack ts first kept ∧
      out = first ++ kept.filter (·.kind != .leftParen) := by
  induction ts generalizing stack out with
  | nil =>
    cases h
    exact ⟨[], stack, Shunts.nil, rfl⟩
  | cons t ts ih =>
    simp only [postfixFrom, bind_eq_ok, Prod.exists] at h
    obtain ⟨first, between, hstep, rest, hrest, h⟩ := h
    cases h
    obtain ⟨more, kept, hrun, rfl⟩ := ih hrest
    exact ⟨first ++ more, kept, Shunts.cons_iff.2 ⟨first, between, more, hstep, hrun, rfl⟩,
      (List.append_assoc _ _ _).symm⟩

/-! ### What a symbol releases -/

/-- The token is a symbol, no parenthesis, and binds at least as tightly as a rank. -/
def Token.BindsFrom (n : Nat) (t : Token) : Prop :=
  t.kind ≠ .leftParen ∧ ∃ rank, rank? t.text = some rank ∧ n ≤ rank

theorem Token.BindsFrom.mono {m n : Nat} {t : Token} (hmn : m ≤ n) (h : t.BindsFrom n) :
    t.BindsFrom m := by
  obtain ⟨hkind, rank, hrank, hle⟩ := h
  exact ⟨hkind, rank, hrank, Nat.le_trans hmn hle⟩

theorem bindsFrom_ofOperator (op : Operator) : (Token.ofOperator op).BindsFrom op.rank :=
  ⟨by simp [Token.ofOperator], op.rank, rank?_operator op, Nat.le_refl op.rank⟩

/-- A symbol of a rank releases nothing of the stack: its top is an opening parenthesis or binds
less tightly. -/
def Admits (n : Nat) : List Token → Prop
  | [] => True
  | top :: _ => top.kind = .leftParen ∨ ∃ rank, rank? top.text = some rank ∧ rank < n

theorem Admits.mono {m n : Nat} {stack : List Token} (hmn : m ≤ n) (h : Admits m stack) :
    Admits n stack := by
  cases stack with
  | nil => trivial
  | cons top stack =>
    rcases h with hparen | ⟨rank, hrank, hlt⟩
    · exact .inl hparen
    · exact .inr ⟨rank, hrank, Nat.lt_of_lt_of_le hlt hmn⟩

/-- Above a stack that admits its rank, a symbol releases what binds at least as tightly. -/
theorem release_append {n : Nat} {symbol : String} {held stack : List Token}
    (hsymbol : rank? symbol = some n) (hheld : ∀ t ∈ held, t.BindsFrom n)
    (hstack : Admits n stack) : release symbol (held ++ stack) = .ok (held, stack) := by
  have hnew : rankOf symbol = .ok n := by simp only [rankOf, hsymbol]
  induction held with
  | nil =>
    cases stack with
    | nil => rfl
    | cons top stack =>
      rw [List.nil_append, release]
      by_cases hparen : top.kind = .leftParen
      · rw [if_pos hparen]
      · obtain ⟨rank, hrank, hlt⟩ := hstack.resolve_left hparen
        have htop : rankOf top.text = .ok rank := by simp only [rankOf, hrank]
        rw [if_neg hparen, hnew, htop]
        simp only [ok_bind, if_pos hlt, pure_eq_ok]
  | cons t held ih =>
    obtain ⟨hkind, rank, hrank, hle⟩ := hheld t List.mem_cons_self
    have htop : rankOf t.text = .ok rank := by simp only [rankOf, hrank]
    rw [List.cons_append, release, if_neg hkind, hnew, htop,
      ih fun u hu => hheld u (List.mem_cons_of_mem t hu)]
    simp only [ok_bind, if_neg (Nat.not_lt.2 hle), pure_eq_ok]

/-- A closing parenthesis releases everything above the opening one. -/
theorem releaseGroup_append {held stack : List Token} {paren : Token}
    (hheld : ∀ t ∈ held, t.kind ≠ .leftParen) (hparen : paren.kind = .leftParen) :
    releaseGroup (held ++ paren :: stack) = (held, stack) := by
  have hkinds : ∀ t ∈ held, (t.kind != .leftParen) = true := fun t ht => by
    simpa using hheld t ht
  simp only [releaseGroup]
  rw [List.takeWhile_append_of_pos hkinds, List.dropWhile_append_of_pos hkinds]
  simp [hparen]

/-! ### Tokens of the vocabulary -/

/-- The token has a rank, if it is an operator or a function. -/
def Token.IsRanked (t : Token) : Prop :=
  t.kind = .operator ∨ t.kind = .function → ∃ rank, rank? t.text = some rank

/-- The token may be held back: an opening parenthesis or a symbol with a rank. -/
def Token.Holds (t : Token) : Prop := t.kind = .leftParen ∨ ∃ rank, rank? t.text = some rank

theorem exists_release {symbol : String} {n : Nat} (hsymbol : rank? symbol = some n)
    {stack : List Token} (hstack : ∀ t ∈ stack, t.Holds) :
    ∃ released kept, release symbol stack = .ok (released, kept) ∧ ∀ t ∈ kept, t.Holds := by
  induction stack with
  | nil => exact ⟨[], [], rfl, by simp⟩
  | cons top stack ih =>
    obtain ⟨htop, hrest⟩ := List.forall_mem_cons.1 hstack
    rw [release]
    by_cases hparen : top.kind = .leftParen
    · exact ⟨[], top :: stack, if_pos hparen, hstack⟩
    · obtain ⟨rank, hrank⟩ := htop.resolve_left hparen
      have hnew : rankOf symbol = .ok n := by simp only [rankOf, hsymbol]
      have hheld : rankOf top.text = .ok rank := by simp only [rankOf, hrank]
      rw [if_neg hparen, hnew, hheld]
      simp only [ok_bind]
      by_cases hlt : rank < n
      · exact ⟨[], top :: stack, if_pos hlt, hstack⟩
      · obtain ⟨released, kept, hrelease, hkept⟩ := ih hrest
        refine ⟨top :: released, kept, ?_, hkept⟩
        rw [if_neg hlt, hrelease]
        rfl

theorem exists_advance {stack : List Token} {t : Token} (hstack : ∀ u ∈ stack, u.Holds)
    (ht : t.IsRanked) :
    ∃ out kept, advance stack t = .ok (out, kept) ∧ ∀ u ∈ kept, u.Holds := by
  have hpush : t.kind = .operator ∨ t.kind = .function →
      ∃ out kept, (release t.text stack >>= fun (released, kept) =>
        pure (released, t :: kept)) = Except.ok (out, kept) ∧ ∀ u ∈ kept, u.Holds := by
    intro hkind
    obtain ⟨rank, hrank⟩ := ht hkind
    obtain ⟨released, kept, hrelease, hkept⟩ := exists_release hrank hstack
    refine ⟨released, t :: kept, ?_, List.forall_mem_cons.2 ⟨.inr ⟨rank, hrank⟩, hkept⟩⟩
    rw [hrelease]
    rfl
  unfold advance
  split
  · exact ⟨[t], stack, rfl, hstack⟩
  · exact ⟨[t], stack, rfl, hstack⟩
  · rename_i hkind
    exact ⟨[], t :: stack, rfl, List.forall_mem_cons.2 ⟨.inl hkind, hstack⟩⟩
  · refine ⟨_, _, rfl, fun u hu => hstack u ?_⟩
    exact (List.dropWhile_sublist _).mem (List.mem_of_mem_drop hu)
  · rename_i hkind
    exact hpush (.inl hkind)
  · rename_i hkind
    exact hpush (.inr hkind)

/-- **Tokens of the vocabulary can be reordered**, in any order. -/
theorem exists_postfixFrom {stack ts : List Token} (hstack : ∀ u ∈ stack, u.Holds)
    (hts : ∀ t ∈ ts, t.IsRanked) : ∃ out, postfixFrom stack ts = .ok out := by
  induction ts generalizing stack with
  | nil => exact ⟨_, rfl⟩
  | cons t ts ih =>
    obtain ⟨ht, hts⟩ := List.forall_mem_cons.1 hts
    obtain ⟨first, kept, hadvance, hkept⟩ := exists_advance hstack ht
    obtain ⟨rest, hrest⟩ := ih hkept hts
    refine ⟨first ++ rest, ?_⟩
    simp only [postfixFrom, hadvance, hrest, ok_bind, pure_eq_ok]

end Formula
