import Formula.Proofs.Token.Lexing

/-!
The parentheses of a formula and those of its tokens.  Only the two parentheses are cut into tokens
that are parentheses, so that the check of the characters is a check of the tokens
(`nested_of_tokenize`).
-/

namespace Formula

/-- Whether the parentheses among tokens balance when a number of them is open already. -/
def nested : Nat → List Token → Bool
  | depth, [] => depth == 0
  | depth, t :: ts =>
    match t.kind, depth with
    | .leftParen, depth => nested (depth + 1) ts
    | .rightParen, 0 => false
    | .rightParen, depth + 1 => nested depth ts
    | _, depth => nested depth ts

section Steps

variable (depth : Nat) (ts : List Token)

theorem nested_opening : nested depth (Token.opening :: ts) = nested (depth + 1) ts := rfl

theorem nested_other {t : Token} (hopen : t.kind ≠ .leftParen) (hclose : t.kind ≠ .rightParen) :
    nested depth (t :: ts) = nested depth ts := by
  obtain ⟨kind, text⟩ := t
  cases kind with
  | leftParen => exact absurd rfl hopen
  | rightParen => exact absurd rfl hclose
  | _ => rfl

end Steps

/-- A character that makes a token on its own counts among the characters as its token does among
the tokens. -/
theorem balancedFrom_symbol {c : Char} {kind : TokenKind} (h : TokenKind.ofChar? c = some kind)
    {cs : List Char} {ts : List Token} (hrest : ∀ depth, balancedFrom depth cs = nested depth ts)
    (depth : Nat) : balancedFrom depth (c :: cs) = nested depth (⟨kind, c.toString⟩ :: ts) := by
  rcases symbol_of_ofChar? h with ⟨op, rfl, rfl⟩ | ⟨rfl, rfl⟩ | ⟨rfl, rfl⟩
  · rw [balancedFrom_operator, hrest, nested_other depth ts (by simp) (by simp)]
  · rw [balancedFrom, hrest]
    rfl
  · cases depth with
    | zero => rfl
    | succ depth =>
      rw [balancedFrom, hrest]
      rfl

/-- **The parentheses of a text balance as those of its tokens do.** -/
theorem balancedFrom_of_lex {cs : List Char} {ts : List Token} (h : lex cs = .ok ts)
    (depth : Nat) : balancedFrom depth cs = nested depth ts := by
  induction cs using lex.induct generalizing ts depth with
  | case1 =>
    rw [lex] at h
    cases h
    rfl
  | case2 c cs hc s hscan _ ih =>
    rw [lex_number hc hscan] at h
    obtain ⟨us, hus, rfl⟩ := exists_of_map_cons h
    obtain ⟨t, ht⟩ := NumberText.exists_of_number hc hscan
    rw [← Scan.number_eq hscan, ← ht, (Lexes.number t).balanced_append, ih hus,
      nested_other depth us (by simp) (by simp)]
  | case3 c cs hc rest hscan =>
    rw [lex, dif_pos hc] at h
    split at h
    · rename_i heq
      cases hscan.symm.trans heq
    · cases h
  | case4 c cs hdigit hc =>
    rename_i ih
    rw [lex_identifier cs hc] at h
    obtain ⟨us, hus, rfl⟩ := exists_of_map_cons h
    have hname := balancedFrom_name (isIdentifier_identifier cs hc) depth
      (Scan.identifier (c :: cs)).rest
    have hsplit : (Scan.identifier (c :: cs)).text ++ (Scan.identifier (c :: cs)).rest = c :: cs :=
      Scan.run_eq _ _
    rw [String.toList_ofList, hsplit] at hname
    rw [hname, ih hus, nested_other depth us (by simp) (by simp)]
  | case5 c cs hdigit hc kind hkind ih =>
    rw [lex_symbol cs hdigit hc hkind] at h
    obtain ⟨us, hus, rfl⟩ := exists_of_map_cons h
    exact balancedFrom_symbol hkind (fun depth => ih hus depth) depth
  | case6 cs hdigit hc hkind ih =>
    rw [lex, dif_neg hdigit, dif_neg hc, hkind] at h
    rw [balancedFrom_cons (by decide) (by decide), ih h]
  | case7 c cs hdigit hc hkind hspace =>
    rw [lex, dif_neg hdigit, dif_neg hc, hkind] at h
    simp only [if_neg hspace] at h
    cases h

theorem nested_of_tokenize {source : String} {ts : List Token} (h : tokenize source = .ok ts) :
    nested 0 ts = true := by
  obtain ⟨hbalanced, hlex⟩ := tokenize_ok_iff.1 h
  rw [← balancedFrom_of_lex hlex 0]
  exact hbalanced

end Formula
