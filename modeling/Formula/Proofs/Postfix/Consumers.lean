import Formula.Postfix.Dialect
import Formula.Proofs.Tree.Simulation

/-!
The consumers of postfix sequences: trees, values and source text are all made by machines.  A
machine whose faults of malformed sequences are those of evaluation, and which serves every token
that finds its operands, makes something of a sequence exactly if that counts out to one value
(`RejectsMalformed.decidedBy_replay`).  The machines that build trees, that compute values for bound
variables and that write in a complete dialect are of this sort.
-/

namespace Formula

/-- There is a result if a test was passed, and a fault of evaluation otherwise. -/
def DecidedBy {α : Type} (passed : Bool) (result : Except Fault α) : Prop :=
  if passed then ∃ v, result = .ok v else ∃ f, result = .error f ∧ f.kind = .evaluation

theorem DecidedBy.exists_ok {α : Type} {passed : Bool} {result : Except Fault α}
    (h : DecidedBy passed result) (hpassed : passed = true) : ∃ v, result = .ok v := by
  rwa [DecidedBy, if_pos hpassed] at h

/-! ### Sequences that do not count out -/

namespace Machine

variable {α : Type} {m : Machine α} {sequence : List Token}

/-- What a machine says of malformed sequences are faults of evaluation. -/
structure RejectsMalformed (m : Machine α) : Prop where
  noArgument : ∀ symbol, (m.noArgument symbol).kind = .evaluation
  leftover : ∀ count, (m.leftover count).kind = .evaluation

namespace RejectsMalformed

variable (hm : m.RejectsMalformed)

include hm

/-- A token that lacks an operand, or that is a parenthesis, is rejected. -/
theorem step {stack : List α} {t : Token}
    (hlacks : ∀ n, t.kind.arity? = some n → stack.length < n) :
    ∃ f, m.step stack t = .error f ∧ f.kind = .evaluation := by
  obtain ⟨kind, text⟩ := t
  cases kind with
  | number => exact absurd (hlacks 0 rfl) (Nat.not_lt_zero _)
  | identifier => exact absurd (hlacks 0 rfl) (Nat.not_lt_zero _)
  | function =>
    have hlength : stack.length < 1 := hlacks 1 rfl
    obtain rfl : stack = [] := List.length_eq_zero_iff.1 (by omega)
    exact ⟨_, rfl, hm.noArgument text⟩
  | operator =>
    have hlength : stack.length < 2 := hlacks 2 rfl
    rcases stack with _ | ⟨right, _ | ⟨left, stack⟩⟩
    · exact ⟨_, rfl, rfl⟩
    · exact ⟨_, rfl, rfl⟩
    · rw [List.length_cons, List.length_cons] at hlength
      omega
  | leftParen => exact ⟨_, rfl, rfl⟩
  | rightParen => exact ⟨_, rfl, rfl⟩

/-- A run that lacks an operand somewhere is rejected there. -/
theorem run (hsequence : ∀ t ∈ sequence, m.Serves (fun _ => True) t) {stack : List α}
    (hdepth : depthAfter? stack.length sequence = none) :
    ∃ f, m.run stack sequence = .error f ∧ f.kind = .evaluation := by
  induction sequence generalizing stack with
  | nil => cases hdepth
  | cons t ts ih =>
    obtain ⟨ht, hts⟩ := List.forall_mem_cons.1 hsequence
    rw [Machine.run_cons]
    by_cases hlacks : ∀ n, t.kind.arity? = some n → stack.length < n
    · obtain ⟨f, hf, hkind⟩ := hm.step hlacks
      exact ⟨f, by rw [hf]; rfl, hkind⟩
    · obtain ⟨n, hn⟩ := Classical.not_forall.1 hlacks
      obtain ⟨harity, hn⟩ := Classical.not_imp.1 hn
      obtain ⟨between, hstep, hlength, -⟩ := ht (fun _ _ => trivial) harity (Nat.not_lt.1 hn)
      rw [depthAfter?, harity, Option.bind_eq_bind, Option.bind_some, if_neg hn, ← hlength]
        at hdepth
      rw [hstep, ok_bind]
      exact ih hts hdepth

/-- **The operand count is exact.**  It decides whether a machine makes something of a sequence,
whose tokens are all served. -/
theorem decidedBy_replay (hsequence : ∀ t ∈ sequence, m.Serves (fun _ => True) t) :
    DecidedBy (isWellFormed sequence) (m.replay sequence) := by
  unfold DecidedBy
  split
  · rename_i hwell
    obtain ⟨v, hv, -⟩ := Machine.exists_of_replay hsequence hwell
    exact ⟨v, hv⟩
  · rename_i hwell
    cases hdepth : depthAfter? ([] : List α).length sequence with
    | none =>
      obtain ⟨f, hf, hkind⟩ := hm.run hsequence hdepth
      exact ⟨f, by rw [replay, hf]; rfl, hkind⟩
    | some n =>
      have hn : n ≠ 1 := by
        rintro rfl
        exact hwell (beq_iff_eq.2 hdepth)
      obtain ⟨stack, hrun, hlength, -⟩ := Machine.exists_of_run hsequence (by simp) hdepth
      refine ⟨m.leftover stack.length, ?_, hm.leftover _⟩
      rw [replay, hrun, ok_bind]
      rcases stack with _ | ⟨v, _ | ⟨w, stack⟩⟩
      · rfl
      · exact absurd hlength.symm hn
      · rfl

end RejectsMalformed

end Machine

/-! ### Values -/

theorem mem_freeVariables {sequence : List Token} {x : String} :
    x ∈ freeVariables sequence ↔ (⟨.identifier, x⟩ : Token) ∈ sequence := by
  simp only [freeVariables, List.mem_eraseDups, List.mem_map, List.mem_filter, beq_iff_eq]
  constructor
  · rintro ⟨⟨kind, text⟩, ⟨hmem, rfl⟩, rfl⟩
    exact hmem
  · exact fun hmem => ⟨_, ⟨hmem, rfl⟩, rfl⟩

section Values

variable {K : Type} [Kernel K] [Literal K] {env : Environment K}

theorem toEnvironment_toBindings (env : Environment K) :
    env.toBindings.toEnvironment = .ok env := by
  induction env with
  | nil => rfl
  | cons entry env ih =>
    obtain ⟨name, z⟩ := entry
    simp only [Bindings.toEnvironment, Environment.toBindings, List.map_cons,
      List.mapM_cons] at ih ⊢
    rw [ih]
    rfl

theorem rejects_evaluator (env : Environment K) : (evaluator env).RejectsMalformed where
  noArgument _ := rfl
  leftover _ := rfl

/-- A known token has a value, if it is not a variable without one. -/
theorem serves_evaluator {t : Token} (ht : t.isKnown = true)
    (hbound : t.kind = .identifier → (env.lookup t.text).isSome = true) :
    (evaluator env).Serves (fun _ => True) t := by
  obtain ⟨kind, text⟩ := t
  refine Machine.serves_of_ok ?_ ?_ ?_ ?_
  · rintro rfl
    obtain ⟨x, hx⟩ := Token.exists_readScalar K ht
    exact ⟨.real x, by simp only [evaluator, hx, map_ok], trivial⟩
  · intro hkind
    obtain ⟨z, hz⟩ := Option.isSome_iff_exists.1 (hbound hkind)
    exact ⟨z, by simp only [evaluator, valueOf, hz], trivial⟩
  · rintro rfl left right - -
    obtain ⟨op, rfl⟩ := Token.exists_operator ht
    refine ⟨op.apply left right, ?_, trivial⟩
    simp only [evaluator, lookUp_operator, ok_bind, pure_eq_ok]
  · rintro rfl arg -
    obtain ⟨f, rfl⟩ := Token.exists_func ht
    exact ⟨f.apply arg, by simp only [evaluator, lookUp_func, ok_bind, pure_eq_ok], trivial⟩

/-- The operand count decides whether there is a value, once all variables are bound. -/
theorem decidedBy_evaluate {sequence : List Token} (hknown : ∀ t ∈ sequence, t.isKnown = true)
    {bindings : Bindings K} (henv : bindings.toEnvironment = .ok env)
    (hbound : ∀ x ∈ freeVariables sequence, (env.lookup x).isSome = true) :
    DecidedBy (isWellFormed sequence) (evaluate sequence bindings) := by
  rw [evaluate, henv, ok_bind]
  refine (rejects_evaluator env).decidedBy_replay fun t ht => ?_
  refine serves_evaluator (hknown t ht) fun hkind => hbound t.text (mem_freeVariables.2 ?_)
  rwa [← hkind]

end Values

/-! ### Source text -/

namespace Dialect

variable {d : Dialect}

/-- A dialect with a spelling for every literal, operator and function. -/
structure IsComplete (d : Dialect) : Prop where
  literal : ∀ digits, ∃ text, d.literal.fill digits = .ok text
  operator : ∀ op : Operator, (d.operators.lookup op.symbol).isSome = true
  function : ∀ f : Func, ∃ text, d.function.fill f.symbol = .ok text

theorem rejects_writer (K : Type) [Literal K] (d : Dialect) : (d.writer K).RejectsMalformed where
  noArgument _ := rfl
  leftover _ := rfl

/-- A complete dialect spells every known token. -/
theorem IsComplete.serves (hd : d.IsComplete) (K : Type) [Literal K] {t : Token}
    (ht : t.isKnown = true) : (d.writer K).Serves (fun _ => True) t := by
  obtain ⟨kind, text⟩ := t
  refine Machine.serves_of_ok ?_ ?_ ?_ ?_
  · rintro rfl
    obtain ⟨x, hx⟩ := Token.exists_readScalar K ht
    obtain ⟨shown, hshown⟩ := hd.literal (Literal.toNumeral x).literalText
    refine ⟨shown, ?_, trivial⟩
    simp only [writer, literalOf, hx, ok_bind, pure_eq_ok, hshown]
  · exact fun _ => ⟨text, rfl, trivial⟩
  · rintro rfl left right - -
    obtain ⟨op, rfl⟩ := Token.exists_operator ht
    obtain ⟨function, hfunction⟩ := Option.isSome_iff_exists.1 (hd.operator op)
    refine ⟨call function [left, right], ?_, trivial⟩
    simp only [writer, lookUp, hfunction, ok_bind, pure_eq_ok]
  · rintro rfl arg -
    obtain ⟨f, rfl⟩ := Token.exists_func ht
    obtain ⟨function, hfunction⟩ := hd.function f
    exact ⟨call function [arg], by simp only [writer, hfunction, ok_bind, pure_eq_ok], trivial⟩

/-- The operand count decides whether there is source text in a complete dialect. -/
theorem IsComplete.decidedBy_render (hd : d.IsComplete) (K : Type) [Literal K]
    {sequence : List Token} (hknown : ∀ t ∈ sequence, t.isKnown = true) :
    DecidedBy (isWellFormed sequence) (d.render K sequence) :=
  (rejects_writer K d).decidedBy_replay fun t ht => hd.serves K (hknown t ht)

section Fill

open Template

variable (argument : List Char)
  (expand : Numbering → List Char → Except Fault (List Char × Numbering))

/-- The characters of a template stand for themselves. -/
theorem fillFrom_text_append (cs : List Char) {rest : List Char} {pieces : Template}
    {numbering last : Numbering}
    (h : fillFrom argument expand numbering pieces = .ok (rest, last)) :
    fillFrom argument expand numbering (cs.map .text ++ pieces) = .ok (cs ++ rest, last) := by
  induction cs with
  | nil => exact h
  | cons c cs ih =>
    rw [List.map_cons, List.cons_append, fillFrom, ih, ok_bind]
    rfl

theorem fillFrom_text (cs : List Char) (numbering : Numbering) :
    fillFrom argument expand numbering (cs.map .text) = .ok (cs, numbering) := by
  have hend : fillFrom argument expand numbering [] = .ok ([], numbering) := rfl
  simpa using fillFrom_text_append argument expand cs hend

/-- The empty path leads to the argument. -/
theorem look_nil : look argument .unset [] = .ok (argument, .automatic 1) := by
  have hresolve : resolve .unset [] = .ok (0, .automatic 1) := rfl
  simp only [look, List.takeWhile_nil, List.dropWhile_nil, hresolve, ok_bind, if_true, follow,
    pure_eq_ok]

/-- A template with one empty slot sets its argument between the texts around the slot. -/
theorem fill_around (front back : List Char) (argument : String) :
    fill (front.map .text ++ .slot ⟨[], none, []⟩ :: back.map .text) argument =
      .ok (String.ofList (front ++ (argument.toList ++ back))) := by
  have hslot : fillFrom argument.toList (fillNested argument.toList 1) .unset
      (.slot ⟨[], none, []⟩ :: back.map .text) = .ok (argument.toList ++ back, .automatic 1) := by
    have hpresent : present [] argument.toList = .ok argument.toList := rfl
    simp [fillFrom, look_nil, convert, hpresent, fillFrom_text]
  rw [fill, fillFrom_text_append _ _ front hslot, ok_bind]
  rfl

end Fill

/-- The two dialects can spell everything. -/
theorem isComplete_glsl : glsl.IsComplete where
  literal digits := ⟨_, fill_around ['r', '2', 'C', '('] [')'] digits⟩
  operator op := by cases op <;> rfl
  function f := ⟨_, fill_around [] ['C'] f.symbol⟩

theorem isComplete_plain : plain.IsComplete where
  literal digits := ⟨_, fill_around [] [] digits⟩
  operator op := by cases op <;> rfl
  function f := ⟨_, fill_around [] [] f.symbol⟩

end Dialect

end Formula
