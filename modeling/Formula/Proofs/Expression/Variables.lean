import Formula.Proofs.Grammar.Usable
import Formula.Proofs.Tree.Gaps
import Formula.Proofs.Tree.Tokens
import Formula.Proofs.Tree.Traversal

/-!
The variables of a formula.  They can be read off its sequence, off the nodes of its tree, or asked
for name by name, where the symbols of operators and functions answer as well.  Main statement: all
three ways find the same variables, and the value of the tree depends on no other names
(`variables_of_formula`).
-/

namespace Formula.Term

/-- Values of names that a tree does not contain do not matter. -/
theorem evaluate_congr {K : Type} [Kernel K] {env env' : Environment K} {t : Tree K}
    (h : ∀ x, t.contains x = true → env'.lookup x = env.lookup x) :
    t.evaluate env' = t.evaluate env := by
  induction t with
  | constant c => rfl
  | var x => rw [evaluate, evaluate, valueOf, valueOf, h x (by simp [contains])]
  | binary op left right ihl ihr =>
    have hl := ihl fun x hx => h x (by simp [contains, hx])
    have hr := ihr fun x hx => h x (by simp [contains, hx])
    rw [evaluate, evaluate, hl, hr]
  | unary f arg ih =>
    have harg := ih fun x hx => h x (by simp [contains, hx])
    rw [evaluate, evaluate, harg]

/-- **The variables of a formula are the same in its sequence and in its tree**, whose nodes hold
them and which contains no other names than these and its symbols; and the value of the tree depends
on nothing that it does not contain. -/
theorem variables_of_formula (lib : Library) {source : String} {sequence : List Token}
    (h : parse source = .ok sequence) :
    ∃ t : Tree (Doubles lib), ofPostfix sequence = .ok t ∧
      (freeVariables sequence).toFinset = t.variableNames.toFinset ∧
      (∀ x, isOperator x = false → isFunctionName x = false →
        (t.contains x = true ↔ x ∈ (freeVariables sequence).toFinset)) ∧
      ∀ env env' : Environment (Doubles lib),
        (∀ x, t.contains x = true → env'.lookup x = env.lookup x) →
          t.evaluate env' = t.evaluate env := by
  obtain ⟨t, ht⟩ := (usable_of_parse (Doubles lib) h).tree
  have hoccurs (x : String) : x ∈ freeVariables sequence ↔ Occurs x t :=
    mem_freeVariables_iff_occurs (readScalar_text Layout.plain) ht
  refine ⟨t, ht, ?_, fun x hoperator hfunction => ?_, fun env env' hagree => evaluate_congr hagree⟩
  · ext x
    rw [List.mem_toFinset, List.mem_toFinset, hoccurs, mem_variableNames]
  · rw [List.mem_toFinset, hoccurs, contains_iff_occurs hoperator hfunction]

/-- The sequence of `sin(x)^n-x`, which names a function and two variables, one of them twice. -/
def wavesSample : List Token :=
  [⟨.identifier, "x"⟩, Token.ofFunc .sin, ⟨.identifier, "n"⟩, Token.ofOperator .power,
    ⟨.identifier, "x"⟩, Token.ofOperator .minus]

theorem variables_wavesSample : parse "sin(x)^n-x" = .ok wavesSample ∧
    ∃ t : Tree (Doubles .least), ofPostfix wavesSample = .ok t ∧ t.contains "sin" = true ∧
      (freeVariables wavesSample).toFinset = t.variableNames.toFinset ∧
      (t.contains "n" = true ↔ "n" ∈ (freeVariables wavesSample).toFinset) ∧
      t.evaluate [("y", .real 0), ("n", .real 0), ("x", .real 1)] =
        t.evaluate [("x", .real 1), ("n", .real 0)] := by
  have hparse : parse "sin(x)^n-x" = .ok wavesSample := by
    unfold wavesSample
    cbv
  have htree : ofPostfix wavesSample = .ok (binary .minus (binary .power (unary .sin (var "x"))
      (var "n")) (var "x") : Tree (Doubles .least)) := rfl
  obtain ⟨t, ht, hset, hcontains, hvalue⟩ := variables_of_formula .least hparse
  cases htree.symm.trans ht
  refine ⟨hparse, _, ht, rfl, hset, hcontains "n" rfl rfl, hvalue _ _ fun x hx => ?_⟩
  simp only [contains, Symbol.text, Operator.symbol, Func.symbol, Bool.or_eq_true, beq_iff_eq] at hx
  rcases hx with (rfl | (rfl | rfl | rfl) | rfl) | rfl <;> rfl

end Formula.Term
