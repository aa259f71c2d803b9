import Formula.Proofs.Postfix.Origin

/-!
Counting operands.  The surplus of a token list is the number of its operands less that of its
operators; functions and parentheses do not count.  Reordering keeps it (`surplus_toPostfix`), and a
sequence that counts out to one value has a surplus of one (`surplus_of_isWellFormed`).
-/

namespace Formula

/-- What a token adds to the number of values: an operand makes one, an operator makes one of
two. -/
def TokenKind.gain : TokenKind → Int
  | number | identifier => 1
  | operator => -1
  | function | leftParen | rightParen => 0

/-- The number of operands less that of operators. -/
def surplus (ts : List Token) : Int := (ts.map fun t => t.kind.gain).sum

section Surplus

variable (t : Token) (ts us : List Token)

@[simp] theorem surplus_nil : surplus [] = 0 := rfl

@[simp] theorem surplus_cons : surplus (t :: ts) = t.kind.gain + surplus ts := by
  simp only [surplus, List.map_cons, List.sum_cons]

@[simp] theorem surplus_append : surplus (ts ++ us) = surplus ts + surplus us := by
  simp only [surplus, List.map_append, List.sum_append]

/-- Opening parentheses that are dropped are not missed. -/
theorem surplus_filter_leftParen :
    surplus (ts.filter (·.kind != .leftParen)) = surplus ts := by
  induction ts with
  | nil => rfl
  | cons t ts ih =>
    rw [List.filter_cons]
    split
    · rw [surplus_cons, surplus_cons, ih]
    · rename_i hparen
      have hkind : t.kind = .leftParen := by simpa using hparen
      rw [surplus_cons, hkind, ih, TokenKind.gain, Int.zero_add]

end Surplus

/-! ### Reordering -/

theorem surplus_releaseGroup (stack : List Token) :
    surplus (releaseGroup stack).1 + surplus (releaseGroup stack).2 = surplus stack := by
  have hsplit := congrArg surplus
    (List.takeWhile_append_dropWhile (p := (·.kind != TokenKind.leftParen)) (l := stack))
  rw [surplus_append] at hsplit
  rw [releaseGroup, ← hsplit]
  congr 1
  -- what is dropped is the parenthesis at the head, if there is one
  cases hdrop : stack.dropWhile (·.kind != .leftParen) with
  | nil => rfl
  | cons paren rest =>
    have hparen := List.head?_dropWhile_not (p := (·.kind != TokenKind.leftParen)) (l := stack)
    rw [hdrop] at hparen
    have hkind : paren.kind = .leftParen := by simpa using hparen
    rw [List.drop_succ_cons, List.drop_zero, surplus_cons, hkind, TokenKind.gain, Int.zero_add]

theorem surplus_advance {stack out kept : List Token} {t : Token}
    (h : advance stack t = .ok (out, kept)) :
    surplus out + surplus kept = t.kind.gain + surplus stack := by
  cases advances_iff.1 h with
  | operand ht => simp
  | opening ht => simp
  | closing ht => rw [surplus_releaseGroup, ht, TokenKind.gain, Int.zero_add]
  | symbol ht hrelease =>
    rw [← append_of_release hrelease, surplus_append, surplus_cons]
    omega

theorem surplus_postfixFrom {stack ts out : List Token} (h : postfixFrom stack ts = .ok out) :
    surplus out = surplus stack + surplus ts := by
  induction ts generalizing stack out with
  | nil =>
    cases h
    rw [surplus_filter_leftParen, surplus_nil, Int.add_zero]
  | cons t ts ih =>
    simp only [postfixFrom, bind_eq_ok, Prod.exists] at h
    obtain ⟨first, kept, hadvance, rest, hrest, h⟩ := h
    cases h
    have hstep := surplus_advance hadvance
    have hrun := ih hrest
    rw [surplus_append, surplus_cons]
    omega

/-- Reordering keeps the surplus. -/
theorem surplus_toPostfix {ts out : List Token} (h : toPostfix ts = .ok out) :
    surplus out = surplus (ts.map Token.classify) := by
  rw [surplus_postfixFrom h, surplus_nil, Int.zero_add]

/-! ### Sequences that count out -/

theorem surplus_of_depthAfter? {depth n : Nat} {ts : List Token}
    (h : depthAfter? depth ts = some n) : (n : Int) = depth + surplus ts := by
  induction ts generalizing depth with
  | nil =>
    cases h
    simp
  | cons t ts ih =>
    rw [depthAfter?, Option.bind_eq_bind, Option.bind_eq_some_iff] at h
    obtain ⟨arity, harity, h⟩ := h
    split at h
    · cases h
    · rename_i hlt
      have hrest := ih h
      have hgain : t.kind.gain = 1 - arity := by
        cases hkind : t.kind <;> rw [hkind] at harity <;> cases harity <;> rfl
      rw [surplus_cons, hgain]
      omega

theorem surplus_of_isWellFormed {ts : List Token} (h : isWellFormed ts = true) :
    surplus ts = 1 := by
  have hdepth : depthAfter? 0 ts = some 1 := eq_of_beq h
  have := surplus_of_depthAfter? hdepth
  omega

end Formula
