import Formula.Expression
import Formula.Proofs.Postfix.Rendering
import Formula.Proofs.Tree.Tokens
import Formula.Proofs.Tree.Traversal

/-!
The sequence of an expression is a shortcut.  What an expression answers from the sequence that it
was read from, it also answers from its tree alone: the value by way of the simulation of the two
machines, the variables by way of the listing, and source text by way of the formula, whose sequence
has the same tree and therefore the same text (`answers_of_tree`).
-/

namespace Formula

namespace Expression

open Term

/-- The text of the tree of a formula has a sequence with that tree again. -/
theorem exists_reread {source : String} {sequence : List Token} {t : Tree Float}
    (h : parse source = .ok sequence) (ht : ofPostfix sequence = .ok t) :
    ∃ reread, parse t.toInfix = .ok reread ∧ ofPostfix reread = .ok t := by
  obtain ⟨hnames, hsaid⟩ := hereditary_sayable.of_parse h ht
  obtain ⟨reread, hparse, hbuild, -⟩ := ofPostfix_of_renders (renders_toInfix t hnames)
  rw [hsaid, hereditary_dropZeroSign.of_parse h ht] at hbuild
  exact ⟨reread, hparse, hbuild⟩

/-- **The sequence of an expression is a shortcut.**  The expression of a formula and the one that
is made of its tree alone have the same value or the same fault for all bindings, the same variables
and the same source text in both dialects. -/
theorem answers_of_tree {source : String} {sequence : List Token}
    (h : parse source = .ok sequence) :
    ∃ e e' : Expression Float, ofString source = .ok e ∧ e.sequence? = some sequence ∧
      ofDraft (Draft.ofTree e.tree) none = .ok e' ∧ e'.tree = e.tree ∧ e'.sequence? = none ∧
      (∀ bindings, e'.evaluate bindings = e.evaluate bindings) ∧
      e'.freeVariables.toFinset = e.freeVariables.toFinset ∧
      ∀ dialect ∈ [Dialect.glsl, Dialect.plain],
        ∃ text, e.render dialect = .ok text ∧ e'.render dialect = .ok text := by
  have hread : ∀ x : Float, readScalar (Literal.toNumeral x).plainText = .ok x :=
    @readScalar_text .platform Layout.plain
  obtain ⟨t, ht, -⟩ := Formula.exists_of_parse h
  refine ⟨⟨t, some sequence⟩, ⟨t, none⟩, ?_, rfl, ?_, rfl, rfl, ?_, ?_, ?_⟩
  · rw [ofString, h, ok_bind, ht, ok_bind, pure_eq_ok]
  · rw [ofDraft, Draft.validate, Draft.check_ofTree]
    rfl
  · intro bindings
    simp only [evaluate, Formula.evaluate, replay_evaluator ht]
  · ext x
    simp only [freeVariables, List.mem_toFinset, mem_variableNames,
      mem_freeVariables_iff_occurs hread ht]
  · intro dialect hdialect
    obtain ⟨reread, hparse, hbuild⟩ := exists_reread h ht
    obtain ⟨text, htext⟩ := Dialect.exists_render Float hdialect t
    refine ⟨text, htext sequence ht, ?_⟩
    simp only [render, toInfix, hparse, ok_bind, htext reread hbuild]

/-- A formula whose numbers are not in their shortest texts. -/
def respeltSample : String := "1.50*x+15e-1/1e999"

theorem answers_respeltSample : ∃ sequence, parse respeltSample = .ok sequence ∧
    ∃ e e' : Expression Float, ofString respeltSample = .ok e ∧ e.sequence? = some sequence ∧
      e'.tree = e.tree ∧ e'.sequence? = none ∧
      ∃ text, e.render Dialect.plain = .ok text ∧ e'.render Dialect.plain = .ok text := by
  have hparse : parse respeltSample = .ok (postorder
      (.binary .plus (.binary .times (.constant "1.50") (.var "x"))
        (.binary .divide (.constant "15e-1") (.constant "1e999")))) := by
    unfold respeltSample
    cbv
  obtain ⟨e, e', he, hsequence, -, htree, hnone, -, -, hrender⟩ := answers_of_tree hparse
  exact ⟨_, hparse, e, e', he, hsequence, htree, hnone, hrender _ (by simp)⟩

end Expression

end Formula
