import Formula.Proofs.Grammar.Parsing
import Formula.Proofs.Postfix.Origin
import Formula.Proofs.Postfix.Replay
import Formula.Proofs.Tree.Printing
import Formula.Tree.OfPostfix

/-!
Reading the text of a tree gives the tree back.  Replaying the listing of a tree builds it
(`run_postorder`), and every sequence that parsing accepts builds a tree that a formula can say as
it is (`exists_of_parse`).  Main statement: the text of a tree is read as the tree with its
constants as a formula can say them (`readAs_toInfix`).
-/

namespace Formula

open Double

/-! ### Building the tree of a listing -/

namespace Term

theorem builder_number {t : NumberText} (stack : List (Tree Float)) :
    builder.step stack ⟨.number, String.ofList t.chars⟩ =
      .ok (constant (ofDecimal t.decimal) :: stack) := by
  simp only [Machine.step, builder, readScalar_chars, map_ok]

theorem builder_operator {K : Type} [Literal K] (op : Operator) (left right : Tree K)
    (stack : List (Tree K)) : builder.step (right :: left :: stack) (Token.ofOperator op) =
      .ok (binary op left right :: stack) := by
  simp only [Machine.step, Token.ofOperator, builder, operatorOf_symbol, ok_bind, pure_eq_ok,
    map_ok]

theorem builder_function {K : Type} [Literal K] (f : Func) (arg : Tree K)
    (stack : List (Tree K)) :
    builder.step (arg :: stack) (Token.ofFunc f) = .ok (unary f arg :: stack) := by
  simp only [Machine.step, Token.ofFunc, builder, funcOf_symbol, ok_bind, pure_eq_ok, map_ok]

/-- Replaying the listing of a tree of texts builds the tree of its numbers. -/
theorem run_postorder {u : Tree String} {t : Tree Float} (h : Spelled u t)
    (stack : List (Tree Float)) :
    builder.run stack u.postorder = .ok (t.mapConstants dropZeroSign :: stack) := by
  induction h generalizing stack with
  | constant h =>
    rw [postorder, Machine.run_cons, builder_number, ofDecimal_of_spells h, ok_bind,
      Machine.run_nil]
    rfl
  | var x => rfl
  | binary _ _ ihl ihr =>
    rw [postorder, Machine.run_append, Machine.run_append, ihl, ok_bind, ihr, ok_bind,
      Machine.run_cons, builder_operator, ok_bind, Machine.run_nil]
    rfl
  | unary _ ih =>
    rw [postorder, Machine.run_append, ih, ok_bind, Machine.run_cons, builder_function, ok_bind,
      Machine.run_nil]
    rfl

/-- The signs of zeros do not count when trees are compared. -/
theorem Spelled.equal_dropZeroSign {u : Tree String} {t : Tree Float} (h : Spelled u t) :
    (t.mapConstants dropZeroSign).equal Kernel.eq t = true := by
  induction h with
  | constant h =>
    rw [mapConstants, ← ofDecimal_of_spells h]
    exact h
  | var x => exact beq_self_eq_true x
  | binary _ _ ihl ihr => simp [mapConstants, equal, ihl, ihr]
  | unary _ ih => simp [mapConstants, equal, ih]

end Term

open Term

/-- A text is parsed, and its sequence builds a tree that equals another. -/
def ReadAs (text : String) (t : Tree Float) : Prop :=
  ∃ sequence t', parse text = .ok sequence ∧ ofPostfix sequence = .ok t' ∧
    t'.equal Kernel.eq t = true

/-- The text of a phrase is read as the tree of the phrase, but for the signs of its zeros. -/
theorem ofPostfix_of_renders {n : Nat} {text : String} {t : Tree Float} (h : Renders n text t) :
    ∃ sequence, parse text = .ok sequence ∧
      ofPostfix sequence = .ok (t.mapConstants dropZeroSign) ∧
      (t.mapConstants dropZeroSign).equal Kernel.eq t = true := by
  obtain ⟨p, hlex, hspelled⟩ := h.mono (Nat.zero_le n)
  refine ⟨(p.tree none).postorder, ?_, ?_, hspelled.equal_dropZeroSign⟩
  · have htokens : tokenize text = .ok (Sentence.tokens ⟨none, p⟩) := by
      have := hlex.tokenize
      rwa [String.ofList_toList] at this
    have hpostfix : toPostfix (completeSigns (Sentence.tokens ⟨none, p⟩)) =
        .ok (p.tree none).postorder := toPostfix_sentence ⟨none, p⟩
    rw [parse, htokens, ok_bind, hpostfix, ok_bind, if_pos (isWellFormed_postorder _), pure_eq_ok]
  · exact Machine.replay_ok_iff.2 (run_postorder hspelled [])

theorem readAs_of_renders {n : Nat} {text : String} {t : Tree Float} (h : Renders n text t) :
    ReadAs text t := by
  obtain ⟨sequence, hparse, hbuild, heq⟩ := ofPostfix_of_renders h
  exact ⟨sequence, _, hparse, hbuild, heq⟩

/-! ### Trees of formulas -/

/-- A tree as it comes from a formula: its variables have names, and it is as a formula can say
it. -/
def Term.Sayable (t : Tree Float) : Prop := t.hasNames = true ∧ t.unsigned = t

/-- A property that the trees of formulas have, because their numbers and names have it and
operations keep it. -/
structure Hereditary (P : Tree Float → Prop) : Prop where
  number : ∀ s : NumberText, P (constant (ofDecimal s.decimal))
  name : ∀ {x : String}, isName x = true → P (var x)
  binary : ∀ (op : Operator) {left right : Tree Float}, P left → P right →
    P (Term.binary op left right)
  unary : ∀ (f : Func) {arg : Tree Float}, P arg → P (Term.unary f arg)

/-- A token that finds its operands on the stack puts one tree in their place. -/
theorem serves_arranged {P : Tree Float → Prop} (hP : Hereditary P) {t : Token}
    (ht : t.Arranged) : builder.Serves P t := by
  intro stack n hstack harity hn
  cases ht with
  | number s =>
    cases harity
    refine ⟨_, builder_number stack, rfl, ?_⟩
    exact List.forall_mem_cons.2 ⟨hP.number s, hstack⟩
  | @name x h =>
    cases harity
    exact ⟨var x :: stack, rfl, rfl, List.forall_mem_cons.2 ⟨hP.name h, hstack⟩⟩
  | operator op =>
    cases harity
    match stack, hn with
    | right :: left :: stack, _ =>
      obtain ⟨hright, hrest⟩ := List.forall_mem_cons.1 hstack
      obtain ⟨hleft, hstack⟩ := List.forall_mem_cons.1 hrest
      refine ⟨_, builder_operator op left right stack, rfl, ?_⟩
      exact List.forall_mem_cons.2 ⟨hP.binary op hleft hright, hstack⟩
  | function f =>
    cases harity
    match stack, hn with
    | arg :: stack, _ =>
      obtain ⟨harg, hstack⟩ := List.forall_mem_cons.1 hstack
      refine ⟨_, builder_function f arg stack, rfl, ?_⟩
      exact List.forall_mem_cons.2 ⟨hP.unary f harg, hstack⟩
  | opening => cases harity
  | closing => cases harity

/-- Every formula builds a tree, and that has every hereditary property. -/
theorem Hereditary.exists_of_parse {P : Tree Float → Prop} (hP : Hereditary P) {source : String}
    {sequence : List Token} (h : parse source = .ok sequence) :
    ∃ t : Tree Float, ofPostfix sequence = .ok t ∧ P t := by
  obtain ⟨harranged, hwell⟩ := arranged_of_parse h
  exact Machine.exists_of_replay (fun t ht => serves_arranged hP (harranged t ht)) hwell

theorem Hereditary.of_parse {P : Tree Float → Prop} (hP : Hereditary P) {source : String}
    {sequence : List Token} {t : Tree Float} (h : parse source = .ok sequence)
    (ht : ofPostfix sequence = .ok t) : P t := by
  obtain ⟨u, hu, hPu⟩ := hP.exists_of_parse h
  cases hu.symm.trans ht
  exact hPu

theorem hereditary_sayable : Hereditary Sayable where
  number s := by
    have hsign := nonNegative_ofDecimal s.decimal
    have hnan : ¬ (ofDecimal s.decimal).isNaN = true := by
      rw [isNaN_iff]
      intro hview
      rw [hview] at hsign
      exact hsign
    have hneg : ¬ ofDecimal s.decimal < 0.0 := fun h => hsign.not_isNegative (lt_zero_iff.1 h)
    refine ⟨rfl, ?_⟩
    rw [unsigned, unsignedConstant, if_neg hnan, if_neg hneg]
  name h := ⟨h, rfl⟩
  binary op _ _ hl hr := by
    refine ⟨?_, ?_⟩
    · rw [hasNames, hl.1, hr.1]
      rfl
    · rw [unsigned, hl.2, hr.2]
  unary f _ h := by
    refine ⟨h.1, ?_⟩
    rw [unsigned, h.2]

/-- A formula spells no zero with a minus. -/
theorem hereditary_dropZeroSign : Hereditary fun t => t.mapConstants dropZeroSign = t where
  number s := by
    rw [mapConstants, dropZeroSign_of_ne (nonNegative_ofDecimal s.decimal).ne_negativeZero]
  name _ := rfl
  binary op _ _ hl hr := by rw [mapConstants, hl, hr]
  unary f _ h := by rw [mapConstants, h]

/-- Every formula builds a tree that a formula can say as it is. -/
theorem exists_of_parse {source : String} {sequence : List Token}
    (h : parse source = .ok sequence) :
    ∃ t : Tree Float, ofPostfix sequence = .ok t ∧ t.Sayable :=
  hereditary_sayable.exists_of_parse h

/-! ### Reading back -/

/-- **Printing then reading gives the tree back**: a tree whose variables have names as it can be
said, and the tree of a formula as it is. -/
theorem readAs_toInfix :
    (∀ t : Tree Float, t.hasNames = true → ReadAs t.toInfix t.unsigned) ∧
      ∀ source sequence, parse source = .ok sequence →
        ∃ t : Tree Float, ofPostfix sequence = .ok t ∧ ReadAs t.toInfix t := by
  have hprinted : ∀ t : Tree Float, t.hasNames = true → ReadAs t.toInfix t.unsigned :=
    fun t h => readAs_of_renders (renders_toInfix t h)
  refine ⟨hprinted, fun source sequence h => ?_⟩
  obtain ⟨t, ht, hnames, hsaid⟩ := exists_of_parse h
  have hread := hprinted t hnames
  rw [hsaid] at hread
  exact ⟨t, ht, hread⟩

/-- A tree with constants of every kind, of which no parser could have made it. -/
def extremeSample : Tree Float :=
  binary .divide (binary .power (constant (-2.5)) (var "x1"))
    (unary .sin (binary .minus (constant (0.0 / 0.0)) (constant (-(1.0 / 0.0)))))

theorem readAs_extremeSample :
    extremeSample.hasNames = true ∧
      extremeSample.toInfix = "(-2.5)^x1/sin((0/0)-(0-1e999))" ∧
      ReadAs extremeSample.toInfix extremeSample.unsigned ∧
      ∃ sequence, parse "-2*x" = .ok sequence ∧
        ∃ t : Tree Float, ofPostfix sequence = .ok t ∧ ReadAs t.toInfix t := by
  have htext : extremeSample.toInfix = "(-2.5)^x1/sin((0/0)-(0-1e999))" := by decide +kernel
  have hnames : extremeSample.hasNames = true := by decide
  have hparse : parse "-2*x" = .ok (postorder
      (.binary .minus (.constant "0") (.binary .times (.constant "2") (.var "x")))) := by cbv
  exact ⟨hnames, htext, readAs_toInfix.1 _ hnames, _, hparse, readAs_toInfix.2 _ _ hparse⟩

end Formula
