import Formula.Proofs.Grammar.Parsing
import Formula.Proofs.Token.Nesting

/-!
The grammar token by token.  What may stand next in a formula depends on the token before it only
(`Place.behind`), apart from the parentheses, which have to balance.  A token list whose tokens
stand in their places and whose parentheses balance is that of a sentence
(`exists_sentence_of_fits`), and the tokens of a sentence stand in their places (`Sentence.fits`).
-/

namespace Formula

/-! ### Places -/

/-- What stands before a token: nothing or an opening parenthesis, an operator, the name of a
function, or an operand. -/
inductive Place
  | start | operand | argument | after
  deriving DecidableEq, Repr

namespace Place

/-- The place behind a token. -/
def behind (t : Token) : Place :=
  match t.kind with
  | .number | .rightParen => after
  | .identifier => if isFunctionName t.text then argument else after
  | .leftParen => start
  | .operator | .function => operand

/-- Whether a token may stand in a place. -/
def admits (p : Place) (t : Token) : Bool :=
  match p, t.kind with
  | after, .operator | after, .rightParen => true
  | after, _ => false
  | _, .number | _, .leftParen => true
  | argument, .identifier => !isFunctionName t.text
  | _, .identifier => true
  | start, .operator => t.isSign
  | _, _ => false

/-- Whether all tokens stand in their places and the last one ends an operand. -/
def fits : Place → List Token → Bool
  | p, [] => p == after
  | p, t :: ts => p.admits t && (behind t).fits ts

theorem fits_cons {p : Place} {t : Token} {ts : List Token} :
    p.fits (t :: ts) = true ↔ p.admits t = true ∧ (behind t).fits ts = true := by
  rw [fits, Bool.and_eq_true]

/-- A phrase of a level may stand in the place: behind a function, only a number, a variable or a
group. -/
def Wants (p : Place) (n : Nat) : Prop := p = start ∨ p = operand ∨ p = argument ∧ 4 ≤ n

section Admits

variable {p : Place} {n : Nat}

theorem Wants.admits_number (h : p.Wants n) (text : String) :
    p.admits ⟨.number, text⟩ = true := by
  rcases h with rfl | rfl | ⟨rfl, -⟩ <;> rfl

theorem Wants.admits_opening (h : p.Wants n) : p.admits Token.opening = true := by
  rcases h with rfl | rfl | ⟨rfl, -⟩ <;> rfl

theorem Wants.admits_var (h : p.Wants n) {x : String} (free : isFunctionName x = false) :
    p.admits ⟨.identifier, x⟩ = true := by
  rcases h with rfl | rfl | ⟨rfl, -⟩
  · rfl
  · rfl
  · simp [admits, free]

theorem Wants.admits_function (h : p.Wants 3) (f : Func) :
    p.admits ⟨.identifier, f.symbol⟩ = true := by
  rcases h with rfl | rfl | ⟨-, h⟩
  · rfl
  · rfl
  · omega

theorem Wants.succ (h : p.Wants n) : p.Wants (n + 1) := by
  rcases h with h | h | ⟨h, hn⟩
  · exact .inl h
  · exact .inr (.inl h)
  · exact .inr (.inr ⟨h, Nat.le_succ_of_le hn⟩)

theorem behind_var {x : String} (free : isFunctionName x = false) :
    behind ⟨.identifier, x⟩ = after := by
  simp [behind, free]

theorem behind_function (f : Func) : behind ⟨.identifier, f.symbol⟩ = argument := by
  simp [behind, isFunctionName]

end Admits

end Place

open Place

/-! ### The tokens of a sentence stand in their places -/

theorem Phrase.fits {n : Nat} (p : Phrase n) {q : Place} (hq : q.Wants n) {rest : List Token}
    (hrest : after.fits rest = true) : q.fits (p.tokens ++ rest) = true := by
  induction p generalizing q rest with
  | tighter p ih => exact ih hq.succ hrest
  | join left op right ihl ihr =>
    have hright : after.fits (Token.ofOperator op.1 :: (right.tokens ++ rest)) = true :=
      fits_cons.2 ⟨rfl, ihr (.inr (.inl rfl)) hrest⟩
    have hleft := ihl hq hright
    rwa [tokens, List.append_assoc]
  | apply f arg ih =>
    refine fits_cons.2 ⟨hq.admits_function f, ?_⟩
    rw [behind_function]
    exact ih (.inr (.inr ⟨rfl, Nat.le_refl 4⟩)) hrest
  | number text => exact fits_cons.2 ⟨hq.admits_number text, hrest⟩
  | var x free =>
    refine fits_cons.2 ⟨hq.admits_var free, ?_⟩
    rwa [behind_var free]
  | group sign body ih =>
    have hclose : after.fits (Token.closing :: rest) = true := fits_cons.2 ⟨rfl, hrest⟩
    have hbody : start.fits (signTokens sign ++ (body.tokens ++ Token.closing :: rest)) = true := by
      cases sign with
      | none => exact ih (.inl rfl) hclose
      | some op =>
        exact fits_cons.2 ⟨isSign_of_rank_zero op, ih (.inr (.inl rfl)) hclose⟩
    have hopen := fits_cons.2 ⟨hq.admits_opening, hbody⟩
    simpa [tokens] using hopen

/-- The tokens of a sentence stand in their places. -/
theorem Sentence.fits (s : Sentence) : start.fits s.tokens = true := by
  obtain ⟨sign, body⟩ := s
  have hbody {p : Place} (hp : p.Wants 0) : p.fits body.tokens = true := by
    rw [← List.append_nil body.tokens]
    exact body.fits hp rfl
  cases sign with
  | none => exact hbody (.inl rfl)
  | some op => exact fits_cons.2 ⟨isSign_of_rank_zero op, hbody (.inr (.inl rfl))⟩

/-! ### Derivations of flat lists -/

/-- A phrase of a level is one of every lower level. -/
theorem Phrase.exists_lower {n : Nat} (p : Phrase n) {m : Nat} (hmn : m ≤ n) :
    ∃ q : Phrase m, q.tokens = p.tokens := by
  induction n, hmn using Nat.le_induction with
  | base => exact ⟨p, rfl⟩
  | succ n _ ih =>
    obtain ⟨q, hq⟩ := ih (.tighter p)
    exact ⟨q, hq⟩

/-- An operator and an operand behind a phrase make a longer phrase: they join the last operand that
binds less tightly than the operator, or the phrase as a whole. -/
theorem Phrase.exists_extended {n : Nat} (p : Phrase n) (op : Operator) (hn : n ≤ op.rank)
    (a : Phrase 3) : ∃ q : Phrase n, q.tokens = p.tokens ++ Token.ofOperator op :: a.tokens := by
  have hrank : op.rank ≤ 2 := by cases op <;> decide
  induction p with
  | @tighter n p ih =>
    by_cases hop : op.rank = n
    · obtain ⟨right, hright⟩ := a.exists_lower (m := n + 1) (by omega)
      refine ⟨.join (.tighter p) ⟨op, hop⟩ right, ?_⟩
      simp only [tokens, hright]
    · obtain ⟨q, hq⟩ := ih (by omega)
      exact ⟨.tighter q, hq⟩
  | @join n left op' right _ ihr =>
    by_cases hop : op.rank = n
    · obtain ⟨last, hlast⟩ := a.exists_lower (m := n + 1) (by omega)
      refine ⟨.join (.join left op' right) ⟨op, hop⟩ last, ?_⟩
      simp only [tokens, hlast]
    · obtain ⟨q, hq⟩ := ihr (by omega)
      refine ⟨.join left op' q, ?_⟩
      rw [tokens, tokens, hq, List.append_assoc, List.cons_append]
  | apply f arg => omega
  | number text => omega
  | var x free => omega
  | group sign body => omega

/-- Operators with their right operands, one after the other. -/
def chainTokens (links : List (Operator × Phrase 3)) : List Token :=
  links.flatMap fun link => Token.ofOperator link.1 :: link.2.tokens

theorem exists_sum (p : Phrase 0) (links : List (Operator × Phrase 3)) :
    ∃ q : Phrase 0, q.tokens = p.tokens ++ chainTokens links := by
  induction links generalizing p with
  | nil => exact ⟨p, (List.append_nil _).symm⟩
  | cons link links ih =>
    obtain ⟨longer, hlonger⟩ := p.exists_extended link.1 (Nat.zero_le _) link.2
    obtain ⟨q, hq⟩ := ih longer
    refine ⟨q, ?_⟩
    rw [hq, hlonger, List.append_assoc]
    rfl

/-! ### Tokens in their places are those of a sentence -/

/-- What may follow an operand inside a number of open groups: a chain of operators and operands up
to the end of each group, and so on up to the end of the text. -/
def Closes : Nat → List Token → Prop
  | 0, ts => ∃ links, ts = chainTokens links
  | depth + 1, ts => ∃ links rest, ts = chainTokens links ++ Token.closing :: rest ∧
    Closes depth rest

theorem Closes.cons {depth : Nat} {ts : List Token} (op : Operator) (a : Phrase 3)
    (h : Closes depth ts) : Closes depth (Token.ofOperator op :: (a.tokens ++ ts)) := by
  cases depth with
  | zero =>
    obtain ⟨links, rfl⟩ := h
    exact ⟨(op, a) :: links, rfl⟩
  | succ depth =>
    obtain ⟨links, rest, rfl, hrest⟩ := h
    refine ⟨(op, a) :: links, rest, ?_, hrest⟩
    simp only [chainTokens, List.flatMap_cons, List.cons_append, List.append_assoc]

/-- The tokens begin with those of a phrase of a level, and what follows closes the open groups. -/
def Begins (n depth : Nat) (ts : List Token) : Prop :=
  ∃ (p : Phrase n) (rest : List Token), ts = p.tokens ++ rest ∧ Closes depth rest

/-- The tokens begin with a sign, if any, and an operand. -/
def Opens (depth : Nat) (ts : List Token) : Prop :=
  ∃ (sign : Option (Ranked 0)) (rest : List Token), ts = signTokens sign ++ rest ∧
    Begins 3 depth rest

theorem Begins.group {depth : Nat} {ts : List Token} (h : Opens (depth + 1) ts) :
    Begins 4 depth (Token.opening :: ts) := by
  obtain ⟨sign, ts, rfl, a, rest, rfl, links, rest, rfl, hrest⟩ := h
  obtain ⟨first, hfirst⟩ := a.exists_lower (Nat.zero_le 3)
  obtain ⟨body, hbody⟩ := exists_sum first links
  refine ⟨.group sign body, rest, ?_, hrest⟩
  simp [Phrase.tokens, hbody, hfirst]

theorem Begins.apply {depth : Nat} {ts : List Token} (f : Func) (h : Begins 4 depth ts) :
    Begins 3 depth (⟨.identifier, f.symbol⟩ :: ts) := by
  obtain ⟨arg, rest, rfl, hrest⟩ := h
  exact ⟨.apply f arg, rest, rfl, hrest⟩

theorem Begins.lower {depth : Nat} {ts : List Token} (h : Begins 4 depth ts) :
    Begins 3 depth ts := by
  obtain ⟨p, rest, rfl, hrest⟩ := h
  exact ⟨.tighter p, rest, rfl, hrest⟩

/-- What tokens that stand in their places are, each place for itself. -/
def Place.Reads : Place → Nat → List Token → Prop
  | start => Opens
  | operand => Begins 3
  | argument => Begins 4
  | after => Closes

/-- An operand on its own, a number, a variable or a group, may be read in every place that wants
an operand. -/
theorem Place.reads_of_begins {p : Place} (hp : p ≠ after) {depth : Nat} {ts : List Token}
    (h : Begins 4 depth ts) : p.Reads depth ts := by
  cases p with
  | start => exact ⟨none, ts, rfl, h.lower⟩
  | operand => exact h.lower
  | argument => exact h
  | after => exact absurd rfl hp

theorem reads_of_fits {ts : List Token} (hlexed : ∀ t ∈ ts, t.Lexed) {p : Place} {depth : Nat}
    (hfits : p.fits ts = true) (hnested : nested depth ts = true) : p.Reads depth ts := by
  induction ts generalizing p depth with
  | nil =>
    obtain rfl : p = after := eq_of_beq hfits
    obtain rfl : depth = 0 := eq_of_beq hnested
    exact ⟨[], rfl⟩
  | cons t ts ih =>
    obtain ⟨ht, hts⟩ := List.forall_mem_cons.1 hlexed
    obtain ⟨hadmits, hfits⟩ := fits_cons.1 hfits
    cases ht with
    | number s =>
      rw [nested_other depth ts (by simp) (by simp)] at hnested
      refine reads_of_begins ?_ ⟨.number (String.ofList s.chars), ts, rfl, ih hts hfits hnested⟩
      rintro rfl
      cases hadmits
    | @identifier x hx =>
      rw [nested_other depth ts (by simp) (by simp)] at hnested
      have hafter : p ≠ after := by
        rintro rfl
        cases hadmits
      cases hfree : isFunctionName x with
      | false =>
        rw [behind_var hfree] at hfits
        exact reads_of_begins hafter ⟨.var x hfree, ts, rfl, ih hts hfits hnested⟩
      | true =>
        obtain ⟨f, hf⟩ := Option.isSome_iff_exists.1 hfree
        obtain rfl := Func.ofSymbol?_eq_some.1 hf
        rw [behind_function] at hfits
        have happly : Begins 3 depth (⟨.identifier, f.symbol⟩ :: ts) :=
          Begins.apply f (ih hts hfits hnested)
        cases p with
        | start => exact ⟨none, _, rfl, happly⟩
        | operand => exact happly
        | argument => simp [admits, hfree] at hadmits
        | after => exact absurd rfl hafter
    | operator op =>
      rw [nested_other depth ts (by simp [Token.ofOperator]) (by simp [Token.ofOperator])]
        at hnested
      have hright : Begins 3 depth ts := ih hts hfits hnested
      cases p with
      | start =>
        have hrank : op.rank = 0 := by
          cases op <;> first | rfl | exact absurd hadmits (by decide)
        exact ⟨some ⟨op, hrank⟩, ts, rfl, hright⟩
      | operand => cases hadmits
      | argument => cases hadmits
      | after =>
        obtain ⟨a, rest, rfl, hrest⟩ := hright
        exact hrest.cons op a
    | opening =>
      rw [nested_opening] at hnested
      refine reads_of_begins ?_ (Begins.group (ih hts hfits hnested))
      rintro rfl
      cases hadmits
    | closing =>
      cases p with
      | after =>
        cases depth with
        | zero => cases hnested
        | succ depth => exact ⟨[], ts, rfl, ih hts hfits hnested⟩
      | _ => cases hadmits

/-- **Tokens that stand in their places, with balanced parentheses, are those of a sentence.** -/
theorem exists_sentence_of_fits {ts : List Token} (hlexed : ∀ t ∈ ts, t.Lexed)
    (hfits : start.fits ts = true) (hnested : nested 0 ts = true) :
    ∃ s : Sentence, s.tokens = ts := by
  obtain ⟨sign, ts, rfl, a, rest, rfl, links, rfl⟩ := reads_of_fits hlexed hfits hnested
  obtain ⟨first, hfirst⟩ := a.exists_lower (Nat.zero_le 3)
  obtain ⟨body, hbody⟩ := exists_sum first links
  exact ⟨⟨sign, body⟩, by rw [Sentence.tokens, hbody, hfirst]⟩

end Formula
