import Formula.Number.Double
import Formula.Proofs.Postfix.Replay
import Formula.Tree.Evaluate
import Formula.Tree.OfPostfix

/-!
Evaluating a postfix sequence and evaluating the tree that it builds are the same.  At every point
of a sequence the values on the stack of the one machine are the values of the trees on the stack of
the other, from the bottom upwards (`valuesOf`); a step keeps this up (`valuesOf_step`), and so does
a run (`valuesOf_run`).  Since a stack is valued from the bottom, the first variable without a value
in the sequence is also the first one that the tree asks for.
-/

namespace Formula

/-- The token is a variable, a number that can be read, or a symbol of the vocabulary. -/
def Token.isKnown (t : Token) : Bool :=
  match t.kind with
  | .number => (Numeral.ofString? t.text).isSome
  | .operator => isOperator t.text
  | .function => isFunctionName t.text
  | .identifier | .leftParen | .rightParen => true

namespace Token

variable {text : String}

theorem exists_readScalar (K : Type) [Literal K] (h : isKnown ⟨.number, text⟩ = true) :
    ∃ x : K, readScalar text = .ok x := by
  obtain ⟨n, hn⟩ := Option.isSome_iff_exists.1 h
  exact ⟨Literal.ofNumeral n, by rw [readScalar, hn]⟩

theorem exists_operator (h : isKnown ⟨.operator, text⟩ = true) :
    ∃ op : Operator, text = op.symbol := by
  obtain ⟨op, hop⟩ := Option.isSome_iff_exists.1 h
  exact ⟨op, Operator.ofSymbol?_eq_some.1 hop⟩

theorem exists_func (h : isKnown ⟨.function, text⟩ = true) : ∃ f : Func, text = f.symbol := by
  obtain ⟨f, hf⟩ := Option.isSome_iff_exists.1 h
  exact ⟨f, Func.ofSymbol?_eq_some.1 hf⟩

end Token

namespace Term

/-! ### Every known token can be built -/

section Build

variable {K : Type} [Literal K]

theorem serves_known {t : Token} (ht : t.isKnown = true) :
    (builder : Machine (Tree K)).Serves (fun _ => True) t := by
  obtain ⟨kind, text⟩ := t
  refine Machine.serves_of_ok ?_ ?_ ?_ ?_
  · rintro rfl
    obtain ⟨c, hc⟩ := Token.exists_readScalar K ht
    exact ⟨constant c, by simp only [builder, hc, map_ok], trivial⟩
  · exact fun _ => ⟨var text, rfl, trivial⟩
  · rintro rfl left right - -
    obtain ⟨op, rfl⟩ := Token.exists_operator ht
    refine ⟨binary op left right, ?_, trivial⟩
    simp only [builder, operatorOf_symbol, ok_bind, pure_eq_ok]
  · rintro rfl arg -
    obtain ⟨f, rfl⟩ := Token.exists_func ht
    exact ⟨unary f arg, by simp only [builder, funcOf_symbol, ok_bind, pure_eq_ok], trivial⟩

/-- What a token builds on a stack of trees. -/
inductive Builds : List (Tree K) → Token → List (Tree K) → Prop
  | number {stack : List (Tree K)} {text : String} {c : K} (h : readScalar text = .ok c) :
      Builds stack ⟨.number, text⟩ (constant c :: stack)
  | name (stack : List (Tree K)) (x : String) : Builds stack ⟨.identifier, x⟩ (var x :: stack)
  | operator (stack : List (Tree K)) (op : Operator) (left right : Tree K) :
      Builds (right :: left :: stack) (Token.ofOperator op) (binary op left right :: stack)
  | function (stack : List (Tree K)) (f : Func) (arg : Tree K) :
      Builds (arg :: stack) (Token.ofFunc f) (unary f arg :: stack)

/-- Every step of the machine that builds trees is of one of four forms. -/
theorem builds_of_step {stack stack' : List (Tree K)} {t : Token}
    (h : builder.step stack t = .ok stack') : Builds stack t stack' := by
  obtain ⟨kind, text⟩ := t
  cases kind with
  | number =>
    cases hread : (readScalar text : Except Fault K) with
    | error f =>
      simp only [Machine.step, builder, hread] at h
      cases h
    | ok c =>
      simp only [Machine.step, builder, hread, map_ok, Except.ok.injEq] at h
      subst h
      exact .number hread
  | identifier =>
    cases h
    exact .name stack text
  | operator =>
    rcases stack with _ | ⟨right, _ | ⟨left, stack⟩⟩
    · cases h
    · cases h
    · cases hop : Operator.ofSymbol? text with
      | none =>
        simp only [Machine.step, builder, operatorOf, hop] at h
        cases h
      | some op =>
        simp only [Machine.step, builder, operatorOf, hop, ok_bind, pure_eq_ok, map_ok,
          Except.ok.injEq] at h
        subst h
        obtain rfl := Operator.ofSymbol?_eq_some.1 hop
        exact .operator stack op left right
  | function =>
    cases stack with
    | nil => cases h
    | cons arg stack =>
      cases hf : Func.ofSymbol? text with
      | none =>
        simp only [Machine.step, builder, funcOf, hf] at h
        cases h
      | some f =>
        simp only [Machine.step, builder, funcOf, hf, ok_bind, pure_eq_ok, map_ok,
          Except.ok.injEq] at h
        subst h
        obtain rfl := Func.ofSymbol?_eq_some.1 hf
        exact .function stack f arg
  | leftParen => cases h
  | rightParen => cases h

end Build

/-! ### Stacks of trees and stacks of values -/

section Values

variable {K : Type} [Kernel K]

/-- The values of the trees on a stack, its bottom first. -/
def valuesOf (env : Environment K) : List (Tree K) → Except Fault (List (Numeric K))
  | [] => .ok []
  | t :: stack => do
    let values ← valuesOf env stack
    let value ← t.evaluate env
    return value :: values

variable [Literal K] {env : Environment K} {stack stack' : List (Tree K)} {t : Token}

/-- A step on the values of a stack leads to the values of the stack that the step builds. -/
theorem valuesOf_step (h : builder.step stack t = .ok stack') :
    (valuesOf env stack >>= fun values => (evaluator env).step values t) =
      valuesOf env stack' := by
  cases builds_of_step h with
  | number hread =>
    simp only [Machine.step, evaluator, hread, map_ok, valuesOf, evaluate, ok_bind, pure_eq_ok]
  | name stack x =>
    simp only [Machine.step, evaluator, valuesOf, evaluate]
    cases valuesOf env stack with
    | error f => rfl
    | ok values => cases valueOf env x <;> rfl
  | operator stack op left right =>
    simp only [valuesOf, evaluate]
    cases valuesOf env stack with
    | error f => rfl
    | ok values =>
      cases left.evaluate env with
      | error f => rfl
      | ok z =>
        cases right.evaluate env with
        | error f => rfl
        | ok w =>
          simp only [Machine.step, Token.ofOperator, evaluator, lookUp_operator, ok_bind,
            pure_eq_ok, map_ok]
  | function stack f arg =>
    simp only [valuesOf, evaluate]
    cases valuesOf env stack with
    | error f => rfl
    | ok values =>
      cases arg.evaluate env with
      | error f => rfl
      | ok z =>
        simp only [Machine.step, Token.ofFunc, evaluator, lookUp_func, ok_bind, pure_eq_ok, map_ok]

theorem valuesOf_run {sequence : List Token} (h : builder.run stack sequence = .ok stack') :
    (valuesOf env stack >>= fun values => (evaluator env).run values sequence) =
      valuesOf env stack' := by
  induction sequence generalizing stack with
  | nil =>
    cases h
    simp only [Machine.run_nil]
    cases valuesOf env stack' <;> rfl
  | cons t ts ih =>
    rw [Machine.run_cons, bind_eq_ok] at h
    obtain ⟨between, hstep, hrun⟩ := h
    rw [← ih hrun, ← valuesOf_step hstep]
    simp only [Machine.run_cons]
    cases valuesOf env stack <;> rfl

/-- The machine that computes values makes of a sequence the value of its tree. -/
theorem replay_evaluator {sequence : List Token} {t : Tree K} (h : ofPostfix sequence = .ok t) :
    (evaluator env).replay sequence = t.evaluate env := by
  have hvalues : (valuesOf env [] >>= fun values => (evaluator env).run values sequence) =
      valuesOf env [t] := valuesOf_run (Machine.replay_ok_iff.1 h)
  simp only [valuesOf, ok_bind] at hvalues
  rw [Machine.replay, hvalues]
  cases t.evaluate env <;> rfl

omit [Literal K] in
/-- Only a variable without a value keeps a tree from having one. -/
theorem unbound_of_evaluate {t : Tree K} {f : Fault} (h : t.evaluate env = .error f) :
    ∃ x, f = .unbound x ∧ env.lookup x = none := by
  induction t with
  | constant c => cases h
  | var x =>
    simp only [evaluate, valueOf] at h
    split at h
    · cases h
    · rename_i hlookup
      cases h
      exact ⟨x, rfl, hlookup⟩
  | binary op left right ihl ihr =>
    rw [evaluate] at h
    cases hleft : left.evaluate env with
    | error g =>
      rw [hleft] at h
      cases h
      exact ihl hleft
    | ok z =>
      cases hright : right.evaluate env with
      | error g =>
        rw [hleft, hright] at h
        cases h
        exact ihr hright
      | ok w =>
        rw [hleft, hright] at h
        cases h
  | unary g arg ih =>
    rw [evaluate] at h
    cases harg : arg.evaluate env with
    | error g =>
      rw [harg] at h
      cases h
      exact ih harg
    | ok z =>
      rw [harg] at h
      cases h

/-- **Evaluating a sequence is evaluating its tree.**  A sequence of known tokens that counts out to
one value builds a tree, and over any scalars the two have the same value, or fail alike, for the
same variable that has none. -/
theorem evaluate_ofPostfix (sequence : List Token) (hknown : ∀ t ∈ sequence, t.isKnown = true)
    (hwell : isWellFormed sequence = true) (bindings : Bindings K) (env : Environment K)
    (henv : bindings.toEnvironment = .ok env) :
    ∃ t : Tree K, ofPostfix sequence = .ok t ∧
      Formula.evaluate sequence bindings = t.evaluate env ∧
      ∀ f, Formula.evaluate sequence bindings = .error f →
        f.kind = .evaluation ∧ ∃ x, f = .unbound x ∧ env.lookup x = none := by
  obtain ⟨t, ht, -⟩ :=
    Machine.exists_of_replay (fun u hu => serves_known (K := K) (hknown u hu)) hwell
  have hvalue : Formula.evaluate sequence bindings = t.evaluate env := by
    rw [Formula.evaluate, henv, ok_bind, replay_evaluator ht]
  refine ⟨t, ht, hvalue, fun f hf => ?_⟩
  rw [hvalue] at hf
  obtain ⟨x, rfl, hx⟩ := unbound_of_evaluate hf
  exact ⟨rfl, x, rfl, hx⟩

end Values

/-- The sequence of `x*2-sin(y)`. -/
def sineSample : List Token :=
  [⟨.identifier, "x"⟩, ⟨.number, "2"⟩, Token.ofOperator .times, ⟨.identifier, "y"⟩,
    Token.ofFunc .sin, Token.ofOperator .minus]

/-- A value for the first variable of the sample only. -/
def sineBindings : Bindings Float := [("x", .value (.real 2.5))]

/-- Where only the first of the two variables has a value, both ways fail for the second. -/
theorem evaluate_sineSample :
    (∀ t ∈ sineSample, t.isKnown = true) ∧ isWellFormed sineSample = true ∧
      sineBindings.toEnvironment = .ok [("x", .real 2.5)] ∧
      ∃ t : Tree Float, ofPostfix sineSample = .ok t ∧
        t.evaluate [("x", .real 2.5)] = .error (.unbound "y") ∧
        Formula.evaluate sineSample sineBindings = .error (.unbound "y") := by
  have hknown : ∀ t ∈ sineSample, t.isKnown = true := by decide +kernel
  have hwell : isWellFormed sineSample = true := by decide
  have henv : sineBindings.toEnvironment = .ok [("x", .real 2.5)] := rfl
  obtain ⟨t, ht, hvalue, -⟩ := evaluate_ofPostfix sineSample hknown hwell sineBindings _ henv
  have htree : (ofPostfix sineSample : Except Fault (Tree Float)) =
      .ok (binary .minus (binary .times (var "x") (constant (Literal.ofNumeral (.ofInt 2))))
        (unary .sin (var "y"))) := by
    have hread : Numeral.ofString? "2" = some (.ofInt 2) := by decide +kernel
    simp only [ofPostfix, Machine.replay, sineSample, Machine.run_cons, Machine.run_nil,
      Machine.step, builder, readScalar, hread, Token.ofOperator, Token.ofFunc, operatorOf_symbol,
      funcOf_symbol, map_ok, ok_bind, pure_eq_ok]
  have hfault : t.evaluate [("x", .real 2.5)] = .error (.unbound "y") := by
    cases ht.symm.trans htree
    rfl
  exact ⟨hknown, hwell, henv, t, ht, hfault, hvalue.trans hfault⟩

end Term

end Formula
