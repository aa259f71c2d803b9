import Formula.Proofs.Postfix.Origin
import Formula.Proofs.Token.Nesting

/-!
What parentheses do to the reordering.  An opening parenthesis on the stack hides all that lies
below it: tokens whose own parentheses balance are read above it as above an empty stack
(`Shunts.above`), and the closing parenthesis releases just what the end of the text would release.
So a group adds the sequence of its inside and leaves the stack as it was (`shunts_group`).
-/

namespace Formula

/-! ### Open parentheses -/

/-- The number of opening parentheses on a stack. -/
def openings (stack : List Token) : Nat := stack.countP (·.kind == .leftParen)

section Openings

variable {t : Token} (stack stack' : List Token)

theorem openings_append : openings (stack ++ stack') = openings stack + openings stack' :=
  List.countP_append

theorem openings_opening (ht : t.kind = .leftParen) :
    openings (t :: stack) = openings stack + 1 := by
  simp [openings, ht]

theorem openings_other (ht : t.kind ≠ .leftParen) :
    openings (t :: stack) = openings stack := by
  simp [openings, ht]

theorem openings_eq_zero {stack : List Token} :
    openings stack = 0 ↔ ∀ t ∈ stack, t.kind ≠ .leftParen := by
  simp [openings, List.countP_eq_zero]

/-- A stack with an opening parenthesis on it, cut at the topmost one. -/
theorem exists_opening {stack : List Token} (h : openings stack ≠ 0) :
    ∃ held paren rest, stack = held ++ paren :: rest ∧ paren.kind = .leftParen ∧
      ∀ t ∈ held, t.kind ≠ .leftParen := by
  induction stack with
  | nil => exact absurd rfl h
  | cons t stack ih =>
    by_cases ht : t.kind = .leftParen
    · exact ⟨[], t, stack, rfl, ht, by simp⟩
    · rw [openings_other stack ht] at h
      obtain ⟨held, paren, rest, rfl, hparen, hheld⟩ := ih h
      exact ⟨t :: held, paren, rest, rfl, hparen, List.forall_mem_cons.2 ⟨ht, hheld⟩⟩

end Openings

/-! ### Above an opening parenthesis -/

section Above

variable {stack out kept ts : List Token} {t : Token}

theorem release_above {symbol : String} (h : release symbol stack = .ok (out, kept))
    (base : List Token) : release symbol (stack ++ Token.opening :: base) =
      .ok (out, kept ++ Token.opening :: base) := by
  induction stack generalizing out with
  | nil =>
    cases h
    rfl
  | cons top stack ih =>
    rw [release] at h
    rw [List.cons_append, release]
    split at h
    · rename_i hparen
      cases h
      rw [if_pos hparen]
      rfl
    · rename_i hparen
      rw [if_neg hparen]
      obtain ⟨new, hnew, h⟩ := bind_eq_ok.1 h
      obtain ⟨held, hheld, h⟩ := bind_eq_ok.1 h
      rw [hnew, hheld]
      simp only [ok_bind]
      split at h
      · rename_i hlt
        cases h
        rw [if_pos hlt]
        rfl
      · rename_i hlt
        obtain ⟨⟨released, last⟩, hrelease, h⟩ := bind_eq_ok.1 h
        cases h
        rw [if_neg hlt, ih hrelease]
        rfl

/-- No parenthesis is released to make room for a symbol. -/
theorem openings_release {symbol : String} (h : release symbol stack = .ok (out, kept)) :
    openings kept = openings stack := by
  induction stack generalizing out with
  | nil =>
    cases h
    rfl
  | cons top stack ih =>
    rcases release_cons h with ⟨-, rfl⟩ | ⟨hparen, released, hrelease, -⟩
    · rfl
    · rw [ih hrelease, openings_other stack hparen]

/-- A token is read above an opening parenthesis as without it, unless it closes that one. -/
theorem advance_above (h : advance stack t = .ok (out, kept))
    (hclose : t.kind = .rightParen → openings stack ≠ 0) (base : List Token) :
    advance (stack ++ Token.opening :: base) t = .ok (out, kept ++ Token.opening :: base) := by
  rw [advances_iff]
  cases advances_iff.1 h with
  | operand ht => exact .operand ht
  | opening ht => exact .opening ht
  | closing ht =>
    obtain ⟨held, paren, rest, rfl, hparen, hheld⟩ := exists_opening (hclose ht)
    have habove : Advances (held ++ paren :: (rest ++ Token.opening :: base)) t _ _ := .closing ht
    rw [releaseGroup_append hheld hparen] at habove
    rwa [releaseGroup_append hheld hparen, List.append_assoc, List.cons_append]
  | symbol ht hrelease => exact .symbol ht (release_above hrelease base)

/-- The parentheses that are open in the text are those on the stack. -/
theorem nested_advance (h : advance stack t = .ok (out, kept))
    (hn : nested (openings stack) (t :: ts) = true) :
    (t.kind = .rightParen → openings stack ≠ 0) ∧ nested (openings kept) ts = true := by
  have hother (hkind : t.kind ≠ .leftParen ∧ t.kind ≠ .rightParen) :
      nested (openings stack) ts = true := by
    rwa [nested_other _ _ hkind.1 hkind.2] at hn
  cases advances_iff.1 h with
  | operand ht =>
    have hkind : t.kind ≠ .leftParen ∧ t.kind ≠ .rightParen := by
      rcases ht with ht | ht <;> simp [ht]
    exact ⟨fun hclose => absurd hclose hkind.2, hother hkind⟩
  | opening ht =>
    rw [openings_opening stack ht]
    simp only [nested, ht] at hn
    exact ⟨by simp [ht], hn⟩
  | closing ht =>
    have hopen : openings stack ≠ 0 := fun hzero => by
      simp [nested, ht, hzero] at hn
    obtain ⟨held, paren, rest, rfl, hparen, hheld⟩ := exists_opening hopen
    rw [openings_append, openings_eq_zero.2 hheld, openings_opening rest hparen, Nat.zero_add] at hn
    simp only [nested, ht] at hn
    rw [releaseGroup_append hheld hparen]
    exact ⟨fun _ => hopen, hn⟩
  | symbol ht hrelease =>
    have hkind : t.kind ≠ .leftParen ∧ t.kind ≠ .rightParen := by
      rcases ht with ht | ht <;> simp [ht]
    rw [openings_other _ hkind.1, openings_release hrelease]
    exact ⟨fun hclose => absurd hclose hkind.2, hother hkind⟩

/-- **Tokens with balanced parentheses are read above an opening parenthesis as without it.** -/
theorem Shunts.above (h : Shunts stack ts out kept) (hn : nested (openings stack) ts = true)
    (base : List Token) :
    Shunts (stack ++ Token.opening :: base) ts out (kept ++ Token.opening :: base) := by
  induction ts generalizing stack out with
  | nil =>
    obtain ⟨rfl, rfl⟩ := nil_iff.1 h
    exact nil
  | cons t ts ih =>
    obtain ⟨first, between, rest, hstep, hrun, rfl⟩ := cons_iff.1 h
    obtain ⟨hclose, hn⟩ := nested_advance hstep hn
    exact cons_iff.2 ⟨first, _, rest, advance_above hstep hclose base, ih hrun hn, rfl⟩

/-- In the end no parenthesis is left on the stack. -/
theorem Shunts.openings_eq (h : Shunts stack ts out kept)
    (hn : nested (openings stack) ts = true) : openings kept = 0 := by
  induction ts generalizing stack out with
  | nil =>
    obtain ⟨rfl, rfl⟩ := nil_iff.1 h
    exact eq_of_beq hn
  | cons t ts ih =>
    obtain ⟨first, between, rest, hstep, hrun, rfl⟩ := cons_iff.1 h
    exact ih hrun (nested_advance hstep hn).2

end Above

/-! ### Groups -/

/-- **A group adds the sequence of its inside**, whatever is on the stack. -/
theorem shunts_group {ts out : List Token} (h : postfixFrom [] ts = .ok out)
    (hn : nested 0 ts = true) (base : List Token) :
    Shunts base (Token.opening :: ts ++ [Token.closing]) out base := by
  obtain ⟨first, kept, hrun, rfl⟩ := exists_shunts h
  have hkinds := openings_eq_zero.1 (hrun.openings_eq hn)
  have hopen : advance base Token.opening = .ok ([], Token.opening :: base) := rfl
  have hclose : advance (kept ++ Token.opening :: base) Token.closing = .ok (kept, base) := by
    have hrelease : releaseGroup (kept ++ Token.opening :: base) = (kept, base) :=
      releaseGroup_append hkinds rfl
    simp only [advance, Token.closing, hrelease]
  have hfilter : kept.filter (·.kind != .leftParen) = kept :=
    List.filter_eq_self.2 fun t ht => by simpa using hkinds t ht
  rw [hfilter]
  have hinside := Shunts.cons_iff.2 ⟨[], _, first, hopen, hrun.above hn base, rfl⟩
  exact hinside.append (Shunts.single hclose)

end Formula
