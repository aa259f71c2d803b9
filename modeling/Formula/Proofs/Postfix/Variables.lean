import Formula.Proofs.Postfix.Consumers
import Formula.Proofs.Postfix.Origin

/-!
The variables of a formula and of its sequence.  Reordering moves operators and functions only, so
that the variables of a sequence stand in the order of the text (`variables_of_parse`).  A sequence
is evaluated from the front, and so the first variable without a value is the one that a failing
evaluation names (`evaluate_of_unbound`); values of anything else do not matter
(`evaluate_congr`).
-/

namespace Formula

/-! ### Variables keep their order -/

namespace Token

/-- The token of a sequence is a variable. -/
def isVariable (t : Token) : Bool := t.kind == .identifier

/-- The token of a text is an identifier that names no function. -/
def namesVariable (t : Token) : Bool := t.kind == .identifier && !isFunctionName t.text

theorem isVariable_classify (t : Token) : t.classify.isVariable = t.namesVariable := by
  rw [classify]
  split
  · rename_i h
    simp [isVariable, namesVariable, h.2]
  · rename_i h
    by_cases hkind : t.kind = .identifier
    · have hname : isFunctionName t.text = false := by simpa [hkind] using h
      simp [isVariable, namesVariable, hname]
    · simp [isVariable, namesVariable, hkind]

theorem classify_of_namesVariable {t : Token} (h : t.namesVariable = true) : t.classify = t := by
  have hname : isFunctionName t.text = false := by
    simpa using (Bool.and_eq_true_iff.1 h).2
  rw [classify, if_neg (by simp [hname])]

end Token

open Token

theorem filter_map_classify (ts : List Token) :
    (ts.map classify).filter isVariable = ts.filter namesVariable := by
  induction ts with
  | nil => rfl
  | cons t ts ih =>
    rw [List.map_cons, List.filter_cons, List.filter_cons, isVariable_classify, ih]
    split
    · rename_i h
      rw [classify_of_namesVariable h]
    · rfl

theorem filter_insertZeros (opens : Bool) (ts : List Token) :
    (insertZeros opens ts).filter namesVariable = ts.filter namesVariable := by
  induction ts generalizing opens with
  | nil => rfl
  | cons t ts ih =>
    have hzero : Token.zero.namesVariable = false := rfl
    simp only [insertZeros]
    split
    · simp only [List.filter_cons, hzero, ih]
      rfl
    · simp only [List.filter_cons, ih]

/-- A token that is no variable moves no variable. -/
theorem filter_advance {stack out kept : List Token} {t : Token}
    (hstack : ∀ u ∈ stack, u.isVariable = false) (h : advance stack t = .ok (out, kept)) :
    out.filter isVariable = [t].filter isVariable ∧ ∀ u ∈ kept, u.isVariable = false := by
  by_cases ht : t.kind = .identifier
  · simp only [advance, ht] at h
    cases h
    exact ⟨rfl, hstack⟩
  · have hident : t.isVariable = false := by simpa [isVariable] using ht
    have hmem : ∀ u ∈ out ++ kept, u.isVariable = false := by
      intro u hu
      rcases mem_of_advance h u hu with rfl | hu
      · exact hident
      · exact hstack u hu
    refine ⟨?_, fun u hu => hmem u (List.mem_append_right out hu)⟩
    rw [List.filter_eq_nil_iff.2 fun u hu => by simp [hmem u (List.mem_append_left kept hu)],
      List.filter_eq_nil_iff.2 fun u hu => by simp [List.mem_singleton.1 hu, hident]]

/-- Reordering keeps the variables in order. -/
theorem filter_postfixFrom {stack ts out : List Token}
    (hstack : ∀ u ∈ stack, u.isVariable = false) (h : postfixFrom stack ts = .ok out) :
    out.filter isVariable = ts.filter isVariable := by
  induction ts generalizing stack out with
  | nil =>
    cases h
    rw [List.filter_eq_nil_iff.2 fun u hu => by simp [hstack u (List.mem_filter.1 hu).1]]
    rfl
  | cons t ts ih =>
    simp only [postfixFrom, bind_eq_ok, Prod.exists] at h
    obtain ⟨first, kept, hadvance, rest, hrest, h⟩ := h
    cases h
    obtain ⟨hfirst, hkept⟩ := filter_advance hstack hadvance
    rw [List.filter_append, hfirst, ih hkept hrest, ← List.filter_append, List.singleton_append]

/-- **The variables of a sequence stand in the order of the text.** -/
theorem variables_of_parse {source : String} {sequence : List Token}
    (h : parse source = .ok sequence) : ∃ tokens, tokenize source = .ok tokens ∧
      sequence.filter isVariable = tokens.filter namesVariable := by
  obtain ⟨tokens, htokens, hout, -⟩ := parse_ok_iff.1 h
  refine ⟨tokens, htokens, ?_⟩
  rw [filter_postfixFrom (by simp) hout, filter_map_classify, completeSigns, filter_insertZeros]

/-! ### Values of variables -/

section Evaluation

variable {K : Type} [Kernel K] [Literal K] {env : Environment K} {bindings : Bindings K}

/-- **Evaluation fails for the first variable without a value.** -/
theorem evaluate_of_unbound {front back : List Token} {x : String}
    (hknown : ∀ t ∈ front, t.isKnown = true)
    (hwell : isWellFormed (front ++ ⟨.identifier, x⟩ :: back) = true)
    (henv : bindings.toEnvironment = .ok env)
    (hbound : ∀ t ∈ front, t.isVariable = true → (env.lookup t.text).isSome = true)
    (hx : env.lookup x = none) :
    evaluate (front ++ ⟨.identifier, x⟩ :: back) bindings = .error (.unbound x) := by
  have hdepth : depthAfter? 0 (front ++ ⟨.identifier, x⟩ :: back) = some 1 := eq_of_beq hwell
  rw [depthAfter?_append, Option.bind_eq_bind, Option.bind_eq_some_iff] at hdepth
  obtain ⟨n, hfront, -⟩ := hdepth
  have hempty : ∀ z ∈ ([] : List (Numeric K)), True := fun _ _ => trivial
  have hserves : ∀ t ∈ front, (evaluator env).Serves (fun _ => True) t := fun t ht =>
    serves_evaluator (hknown t ht) fun hkind => hbound t ht (beq_iff_eq.2 hkind)
  obtain ⟨stack, hrun, -, -⟩ := Machine.exists_of_run hserves hempty hfront
  have hstep : (evaluator env).step stack ⟨.identifier, x⟩ = .error (.unbound x) := by
    simp only [Machine.step, evaluator, valueOf, hx]
    rfl
  rw [evaluate, henv, ok_bind, Machine.replay, Machine.run_append, hrun, ok_bind, Machine.run_cons,
    hstep]
  rfl

/-- Values of other names than those of the variables do not matter. -/
theorem run_congr {env' : Environment K} {sequence : List Token}
    (h : ∀ x ∈ freeVariables sequence, env'.lookup x = env.lookup x) (stack : List (Numeric K)) :
    (evaluator env').run stack sequence = (evaluator env).run stack sequence := by
  induction sequence generalizing stack with
  | nil => rfl
  | cons t ts ih =>
    have hstep : (evaluator env').step stack t = (evaluator env).step stack t := by
      obtain ⟨kind, text⟩ := t
      cases kind with
      | identifier =>
        have hlookup := h text (mem_freeVariables.2 List.mem_cons_self)
        simp only [Machine.step, evaluator, valueOf, hlookup]
      | operator => rcases stack with _ | ⟨right, _ | ⟨left, stack⟩⟩ <;> rfl
      | function => cases stack <;> rfl
      | _ => rfl
    have hrest : ∀ x ∈ freeVariables ts, env'.lookup x = env.lookup x := fun x hx =>
      h x (mem_freeVariables.2 (List.mem_cons_of_mem t (mem_freeVariables.1 hx)))
    rw [Machine.run_cons, Machine.run_cons, hstep]
    congr 1
    funext stack
    exact ih hrest stack

/-- **What a sequence evaluates to depends on its variables only.** -/
theorem evaluate_congr {env' : Environment K} {bindings' : Bindings K} {sequence : List Token}
    (henv : bindings.toEnvironment = .ok env) (henv' : bindings'.toEnvironment = .ok env')
    (h : ∀ x ∈ freeVariables sequence, env'.lookup x = env.lookup x) :
    evaluate sequence bindings' = evaluate sequence bindings := by
  rw [evaluate, evaluate, henv, henv', ok_bind, ok_bind, Machine.replay, Machine.replay,
    run_congr h]
  rfl

end Evaluation

end Formula
