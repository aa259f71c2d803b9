import Formula.Proofs.Number.Reading
import Formula.Proofs.Postfix.Consumers
import Formula.Proofs.Tree.RoundTrip

/-!
Sequences and trees.  A tree is listed with every node behind its operands and every constant by its
shortest text (`Term.listing`).  Building a tree from a sequence keeps what has been read: the
listings of the trees on the stack are the tokens so far, up to the texts of numbers
(`listings_step`, `listings_run`).  Conversely a listing builds its tree (`run_listing`).

Main statement: the operand count decides whether a sequence of known tokens makes a tree, a value
and source text, and the sequences that it accepts are the listings of trees
(`isWellFormed_correspondence`).
-/

namespace Formula

/-- The tokens are the same, or they are numbers that are read as the same scalar. -/
def Token.Same (K : Type) [Literal K] (t u : Token) : Prop :=
  t = u ∨ t.kind = .number ∧ u.kind = .number ∧
    ∃ x : K, readScalar t.text = .ok x ∧ readScalar u.text = .ok x

namespace Term

section Listings

variable {K : Type} [Literal K]

/-- The tokens of a tree with every node behind its operands, constants in their shortest text. -/
def listing (t : Tree K) : List Token :=
  (t.mapConstants fun c => (Literal.toNumeral c).plainText).postorder

/-- The listings of the trees on a stack, its bottom first. -/
def listings : List (Tree K) → List Token
  | [] => []
  | t :: stack => listings stack ++ t.listing

variable {stack stack' : List (Tree K)} {t : Token}

section Reads

/-! ### The sequence of a tree -/

variable (hread : ∀ x : K, readScalar (Literal.toNumeral x).plainText = .ok x)

include hread

/-- A listing builds its tree on top of any stack. -/
theorem run_listing (t : Tree K) (stack : List (Tree K)) :
    builder.run stack t.listing = .ok (t :: stack) := by
  induction t generalizing stack with
  | constant c =>
    have hstep : builder.step stack ⟨.number, (Literal.toNumeral c).plainText⟩ =
        .ok (constant c :: stack) := by
      simp only [Machine.step, builder, hread, map_ok]
    rw [listing, mapConstants, postorder, Machine.run_cons, hstep]
    rfl
  | var x => rfl
  | binary op left right ihl ihr =>
    simp only [listing] at ihl ihr
    rw [listing, mapConstants, postorder, Machine.run_append, Machine.run_append, ihl, ok_bind,
      ihr, ok_bind, Machine.run_cons, builder_operator, ok_bind, Machine.run_nil]
  | unary f arg ih =>
    simp only [listing] at ih
    rw [listing, mapConstants, postorder, Machine.run_append, ih, ok_bind, Machine.run_cons,
      builder_function, ok_bind, Machine.run_nil]

theorem ofPostfix_listing (t : Tree K) : ofPostfix t.listing = .ok t :=
  Machine.replay_ok_iff.2 (run_listing hread t [])

/-! ### The tree of a sequence -/

/-- A token adds itself to the listings of the stack, with a number in its shortest text. -/
theorem listings_step (h : builder.step stack t = .ok stack') :
    ∃ u, listings stack' = listings stack ++ [u] ∧ u.Same K t := by
  cases builds_of_step h with
  | @number _ text c hc =>
    exact ⟨⟨.number, (Literal.toNumeral c).plainText⟩, rfl, .inr ⟨rfl, rfl, c, hread c, hc⟩⟩
  | name stack x => exact ⟨⟨.identifier, x⟩, rfl, .inl rfl⟩
  | operator stack op left right =>
    refine ⟨Token.ofOperator op, ?_, .inl rfl⟩
    simp only [listings, listing, mapConstants, postorder, List.append_assoc]
  | function stack f arg =>
    refine ⟨Token.ofFunc f, ?_, .inl rfl⟩
    simp only [listings, listing, mapConstants, postorder, List.append_assoc]

/-- A run adds its tokens. -/
theorem listings_run {sequence : List Token} (h : builder.run stack sequence = .ok stack') :
    ∃ us, listings stack' = listings stack ++ us ∧ List.Forall₂ (Token.Same K) us sequence := by
  induction sequence generalizing stack with
  | nil =>
    cases h
    exact ⟨[], (List.append_nil _).symm, .nil⟩
  | cons t ts ih =>
    rw [Machine.run_cons, bind_eq_ok] at h
    obtain ⟨between, hstep, hrun⟩ := h
    obtain ⟨u, hu, hsame⟩ := listings_step hread hstep
    obtain ⟨us, hus, hall⟩ := ih hrun
    refine ⟨u :: us, ?_, .cons hsame hall⟩
    rw [hus, hu, List.append_assoc]
    rfl

/-- A sequence lists the tree that it builds. -/
theorem listing_of_ofPostfix {sequence : List Token} {t : Tree K}
    (h : ofPostfix sequence = .ok t) : List.Forall₂ (Token.Same K) t.listing sequence := by
  obtain ⟨us, hus, hall⟩ := listings_run hread (Machine.replay_ok_iff.1 h)
  have hlisting : t.listing = us := hus
  rwa [hlisting]

end Reads

end Listings

/-! ### Exactness -/

theorem isWellFormed_listing {K : Type} [Literal K] (t : Tree K) :
    isWellFormed t.listing = true :=
  isWellFormed_postorder _

theorem rejects_builder (K : Type) [Literal K] :
    (builder : Machine (Tree K)).RejectsMalformed where
  noArgument _ := rfl
  leftover _ := rfl

/-- **The operand count is exact for every consumer, and the sequences that it accepts correspond to
trees.**  Of a sequence of known tokens, parentheses among them, a tree, source text and, once all
variables are bound, a value are made exactly if the sequence counts out to one value; otherwise
each of them is refused with a fault of evaluation.  Then the sequence lists its tree, but for the
texts of numbers; and conversely the listing of every tree counts out and makes that tree. -/
theorem isWellFormed_correspondence {lib : Library} (sequence : List Token)
    (hknown : ∀ t ∈ sequence, t.isKnown = true) :
    DecidedBy (isWellFormed sequence) (ofPostfix sequence : Except Fault (Tree (Doubles lib))) ∧
    (∀ dialect ∈ [Dialect.glsl, Dialect.plain],
      DecidedBy (isWellFormed sequence) (dialect.render (Doubles lib) sequence)) ∧
    (∀ (bindings : Bindings (Doubles lib)) (env : Environment (Doubles lib)),
      bindings.toEnvironment = .ok env →
      (∀ x ∈ freeVariables sequence, (env.lookup x).isSome = true) →
        DecidedBy (isWellFormed sequence) (Formula.evaluate sequence bindings)) ∧
    (isWellFormed sequence = true → ∃ t : Tree (Doubles lib), ofPostfix sequence = .ok t ∧
      List.Forall₂ (Token.Same (Doubles lib)) t.listing sequence) ∧
    ∀ t : Tree (Doubles lib), isWellFormed t.listing = true ∧ ofPostfix t.listing = .ok t := by
  have hread : ∀ x : Doubles lib, readScalar (Literal.toNumeral x).plainText = .ok x :=
    readScalar_text Layout.plain
  have hserves : ∀ t ∈ sequence,
      (builder : Machine (Tree (Doubles lib))).Serves (fun _ => True) t :=
    fun t ht => serves_known (hknown t ht)
  refine ⟨(rejects_builder _).decidedBy_replay hserves, ?_, ?_, ?_, ?_⟩
  · intro dialect hdialect
    rcases List.mem_pair.1 hdialect with rfl | rfl
    · exact Dialect.isComplete_glsl.decidedBy_render _ hknown
    · exact Dialect.isComplete_plain.decidedBy_render _ hknown
  · intro bindings env henv hbound
    exact decidedBy_evaluate hknown henv hbound
  · intro hwell
    obtain ⟨t, ht, -⟩ := Machine.exists_of_replay hserves hwell
    exact ⟨t, ht, listing_of_ofPostfix hread ht⟩
  · exact fun t => ⟨isWellFormed_listing t, ofPostfix_listing hread t⟩

/-- The sequence of `2.50*x`, with blanks around the number. -/
def blankSample : List Token :=
  [⟨.number, " 2.50 "⟩, ⟨.identifier, "x"⟩, Token.ofOperator .times]

/-- The sample makes a tree whose listing is the sample with the number in its shortest text. -/
theorem correspondence_blankSample : (∀ t ∈ blankSample, t.isKnown = true) ∧
    isWellFormed blankSample = true ∧
    (∃ t : Tree Float, ofPostfix blankSample = .ok t ∧
      List.Forall₂ (Token.Same Float) t.listing blankSample) ∧
    ∃ z, Formula.evaluate blankSample [("x", .value (.real (2.0 : Float)))] = .ok z := by
  have hknown : ∀ t ∈ blankSample, t.isKnown = true := by decide +kernel
  have hwell : isWellFormed blankSample = true := by decide
  obtain ⟨-, -, hvalue, hlisting, -⟩ :=
    @isWellFormed_correspondence Library.platform blankSample hknown
  have hdecided := hvalue [("x", .value (.real (2.0 : Float)))] [("x", .real (2.0 : Float))] rfl
    (by decide)
  exact ⟨hknown, hwell, hlisting hwell, hdecided.exists_ok hwell⟩

end Term

end Formula
