import Formula.Proofs.Grammar.Place
import Formula.Proofs.Postfix.Surplus
import Mathlib.Data.List.Chain

/-!
What the operand count lets through.  A token out of its place either lacks an operand before it,
which lowers the surplus, or it is an operand too many, or a function of a function.  Without the
latter two (`Token.clashes`) the surplus is at most one, and it is one only if every token stands in
its place (`fits_of_count`).

Main statement: the texts of sentences are those that are accepted and have no clash
(`exists_sentence_iff_parse`).  A clash can make up for an operand that is missing elsewhere
(`parse_trailingSample`).
-/

namespace Formula

/-! ### Clashes -/

namespace Token

/-- A number, a variable or a group ends here. -/
def endsOperand (t : Token) : Bool :=
  t.kind == .number || t.kind == .rightParen ||
    t.kind == .identifier && !isFunctionName t.text

/-- A number, a name or a group begins here. -/
def beginsOperand (t : Token) : Bool :=
  t.kind == .number || t.kind == .identifier || t.kind == .leftParen

/-- The token is the name of a function. -/
def namesFunction (t : Token) : Bool := t.kind == .identifier && isFunctionName t.text

/-- Two operands with no operator between them, or a function of a function. -/
def clashes (t u : Token) : Bool :=
  t.endsOperand && u.beginsOperand || t.namesFunction && u.namesFunction

end Token

/-- The tokens have no two neighbours that clash. -/
def ClashFree (ts : List Token) : Prop := ts.IsChain fun t u => t.clashes u = false

instance (ts : List Token) : Decidable (ClashFree ts) :=
  inferInstanceAs (Decidable (ts.IsChain _))

namespace Place

/-- Whether a token clashes with what stands before it. -/
def clashes : Place → Token → Bool
  | after, t => t.beginsOperand
  | argument, t => t.namesFunction
  | _, _ => false

/-- Whether a token clashes with the one before it is told by the place between them. -/
theorem clashes_behind (t u : Token) : (behind t).clashes u = t.clashes u := by
  obtain ⟨kind, text⟩ := t
  cases kind with
  | identifier =>
    cases h : isFunctionName text <;>
      simp [behind, clashes, Token.clashes, Token.endsOperand, Token.namesFunction, h]
  | _ => simp [behind, clashes, Token.clashes, Token.endsOperand, Token.namesFunction]

theorem clashes_of_admits {p : Place} {t : Token} (h : p.admits t = true) :
    p.clashes t = false := by
  obtain ⟨kind, text⟩ := t
  cases p with
  | after => cases kind <;> first | rfl | cases h
  | argument => cases kind <;> simp_all [admits, clashes, Token.namesFunction]
  | _ => rfl

theorem head_clashes_of_fits {p : Place} {ts : List Token} (h : p.fits ts = true) :
    ∀ t ∈ ts.head?, p.clashes t = false := by
  intro t ht
  obtain ⟨rest, rfl⟩ := List.head?_eq_some_iff.1 ht
  exact clashes_of_admits (fits_cons.1 h).1

/-- Tokens in their places do not clash. -/
theorem clashFree_of_fits {p : Place} {ts : List Token} (h : p.fits ts = true) :
    ClashFree ts := by
  induction ts generalizing p with
  | nil => exact .nil
  | cons t ts ih =>
    have hrest := (fits_cons.1 h).2
    refine List.isChain_cons.2 ⟨fun u hu => ?_, ih hrest⟩
    rw [← clashes_behind]
    exact head_clashes_of_fits hrest u hu

/-! ### The count from a place on -/

/-- The surplus of tokens that are read in a place, once zeros stand before their leading signs and
functions are told apart from variables. -/
def count (p : Place) (ts : List Token) : Int :=
  surplus ((insertZeros (p == start) ts).map Token.classify)

/-- The operands that stand directly before a place. -/
def given : Place → Int
  | after => 1
  | _ => 0

/-- What a token adds to the count where it stands; a leading sign brings its zero along. -/
def gain (p : Place) (t : Token) : Int :=
  t.classify.kind.gain + if p = start ∧ t.isSign = true then 1 else 0

theorem count_cons (p : Place) (t : Token) (ts : List Token) :
    p.count (t :: ts) = p.gain t + (behind t).count ts := by
  have hplace : (t.kind == .leftParen) = (behind t == start) := by
    obtain ⟨kind, text⟩ := t
    cases kind with
    | identifier => cases h : isFunctionName text <;> simp [behind, h]
    | _ => rfl
  simp only [count, gain, insertZeros, hplace, Bool.and_eq_true, beq_iff_eq]
  split
  · simp [Token.classify, Token.zero, TokenKind.gain]
    omega
  · simp

/-- A token that does not clash adds at most one operand where one was wanted, and it adds less than
its place allows if it may not stand there. -/
theorem gain_le {p : Place} {t : Token} (ht : t.Lexed) (hclash : p.clashes t = false) :
    p.given + p.gain t ≤ (behind t).given ∧
      (p.given + p.gain t = (behind t).given → p.admits t = true) := by
  cases ht with
  | number s =>
    cases p with
    | after => cases hclash
    | _ => exact ⟨Int.le_refl 1, fun _ => rfl⟩
  | @identifier x hx =>
    have hafter : p ≠ after := by
      rintro rfl
      cases hclash
    cases hname : isFunctionName x with
    | false =>
      have hgain : p.gain ⟨.identifier, x⟩ = 1 := by
        simp [gain, classify_var hname, Token.isSign, TokenKind.gain]
      rw [hgain, behind_var hname]
      cases p with
      | after => exact absurd rfl hafter
      | argument => exact ⟨Int.le_refl 1, fun _ => by simp [admits, hname]⟩
      | _ => exact ⟨Int.le_refl 1, fun _ => rfl⟩
    | true =>
      have hgain : p.gain ⟨.identifier, x⟩ = 0 := by
        simp [gain, Token.classify, hname, Token.isSign, TokenKind.gain]
      have hbehind : behind ⟨.identifier, x⟩ = argument := by simp [behind, hname]
      rw [hgain, hbehind]
      cases p with
      | after => exact absurd rfl hafter
      | argument => simp [clashes, Token.namesFunction, hname] at hclash
      | _ => exact ⟨Int.le_refl 0, fun _ => rfl⟩
  | operator op =>
    -- an operator takes the operand before it or the zero before a sign, or else lacks an operand
    cases p <;> cases op <;> decide
  | opening =>
    cases p with
    | after => cases hclash
    | _ => exact ⟨Int.le_refl 0, fun _ => rfl⟩
  | closing => cases p <;> decide

/-- **Without a clash there is at most one operand too many, and then every token stands in its
place.** -/
theorem count_le {ts : List Token} (hlexed : ∀ t ∈ ts, t.Lexed) {p : Place}
    (hhead : ∀ t ∈ ts.head?, p.clashes t = false) (hfree : ClashFree ts) :
    p.given + p.count ts ≤ 1 ∧ (p.given + p.count ts = 1 → p.fits ts = true) := by
  induction ts generalizing p with
  | nil => cases p <;> decide
  | cons t ts ih =>
    obtain ⟨ht, hts⟩ := List.forall_mem_cons.1 hlexed
    obtain ⟨hnext, hrest⟩ := List.isChain_cons.1 hfree
    obtain ⟨hgain, hadmits⟩ := gain_le ht (hhead t rfl)
    obtain ⟨hcount, hfits⟩ :=
      ih hts (p := behind t) (fun u hu => (clashes_behind t u).trans (hnext u hu)) hrest
    rw [count_cons]
    refine ⟨by omega, fun h => fits_cons.2 ⟨hadmits (by omega), hfits (by omega)⟩⟩

end Place

open Place

/-! ### Accepted texts -/

section Source

variable {source : String} {tokens : List Token} (h : tokenize source = .ok tokens)

include h

theorem parse_of_exists_sentence (hs : ∃ s : Sentence, s.tokens = tokens) :
    (∃ sequence, parse source = .ok sequence) ∧ ClashFree tokens := by
  obtain ⟨s, rfl⟩ := hs
  have hwell := isWellFormed_postorder s.tree
  have hparse := parse_ok_iff.2 ⟨s.tokens, h, toPostfix_sentence s, hwell⟩
  exact ⟨⟨s.tree.postorder, hparse⟩, clashFree_of_fits s.fits⟩

theorem exists_sentence_of_parse
    (haccepted : (∃ sequence, parse source = .ok sequence) ∧ ClashFree tokens) :
    ∃ s : Sentence, s.tokens = tokens := by
  obtain ⟨⟨sequence, hparse⟩, hfree⟩ := haccepted
  obtain ⟨others, hothers, hout, hwell⟩ := parse_ok_iff.1 hparse
  obtain rfl : others = tokens := Except.ok.inj (hothers.symm.trans h)
  have hcount : start.given + start.count others = 1 := by
    rw [← surplus_of_isWellFormed hwell, surplus_toPostfix hout]
    exact Int.zero_add _
  have hlexed := lexed_of_tokenize h
  have hfits := (count_le hlexed (fun _ _ => rfl) hfree).2 hcount
  exact exists_sentence_of_fits hlexed hfits (nested_of_tokenize h)

end Source

/-- **The texts of sentences are those that are accepted and have no clash.**  All others that can
be cut into tokens are rejected for their operands, or they have a clash. -/
theorem exists_sentence_iff_parse (source : String) (tokens : List Token)
    (h : tokenize source = .ok tokens) :
    ((∃ s : Sentence, s.tokens = tokens) ↔
      (∃ sequence, parse source = .ok sequence) ∧ ClashFree tokens) ∧
    ((¬∃ s : Sentence, s.tokens = tokens) →
      parse source = .error (.mismatched source) ∨ ¬ClashFree tokens) := by
  have hiff : (∃ s : Sentence, s.tokens = tokens) ↔
      (∃ sequence, parse source = .ok sequence) ∧ ClashFree tokens :=
    ⟨parse_of_exists_sentence h, exists_sentence_of_parse h⟩
  refine ⟨hiff, fun hnone => ?_⟩
  rcases parse_eq_ok_or_mismatched h with hparse | hparse
  · exact .inr fun hfree => hnone (hiff.2 ⟨hparse, hfree⟩)
  · exact .inl hparse

/-- The tokens of `2*(x+1)`. -/
def groupSample : List Token :=
  [⟨.number, "2"⟩, Token.ofOperator .times, Token.opening, ⟨.identifier, "x"⟩,
    Token.ofOperator .plus, ⟨.number, "1"⟩, Token.closing]

/-- A text that is accepted and has no clash is that of a sentence. -/
theorem exists_sentence_groupSample :
    tokenize "2*(x+1)" = .ok groupSample ∧ ∃ s : Sentence, s.tokens = groupSample := by
  have htokens : tokenize "2*(x+1)" = .ok groupSample := by cbv
  have hparse : parse "2*(x+1)" = .ok [⟨.number, "2"⟩, ⟨.identifier, "x"⟩, ⟨.number, "1"⟩,
    Token.ofOperator .plus, Token.ofOperator .times] := by cbv
  refine ⟨htokens, (exists_sentence_iff_parse _ _ htokens).1.2 ⟨⟨_, hparse⟩, ?_⟩⟩
  decide

/-- The tokens of `1 2 +`. -/
def trailingSample : List Token := [⟨.number, "1"⟩, ⟨.number, "2"⟩, Token.ofOperator .plus]

/-- An operand too many makes up for the one that the operator lacks: a text is accepted that is not
that of a sentence. -/
theorem parse_trailingSample :
    tokenize "1 2 +" = .ok trailingSample ∧ parse "1 2 +" = .ok trailingSample ∧
      ¬∃ s : Sentence, s.tokens = trailingSample := by
  refine ⟨by cbv, by cbv, ?_⟩
  rintro ⟨s, hs⟩
  have hfree := clashFree_of_fits s.fits
  rw [hs] at hfree
  exact absurd hfree (by decide)

end Formula
