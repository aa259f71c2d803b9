import Formula.Proofs.Grammar.Usable
import Formula.Proofs.Postfix.Rendering
import Formula.Proofs.Tree.Reached
import Formula.Proofs.Tree.Tokens

/-!
The value of source text.  The text of a formula in plain calls is read as calls again, and these
have a value where every name stands for something: an operation, or a value that is bound to it
(`Call.compute`).  Two things come between this value and that of the formula.  A literal that is
too large is written as a name, `inf`, and a variable may take the name of an operation.

Main statement: where neither happens the text computes what the evaluator computes, and it computes
something exactly if no variable takes the name of an operation that is called and, once a literal
is too large, a variable is called `inf` (`Call.compute_render`).
-/

namespace Formula

open Term

namespace Call

/-! ### Values of calls -/

/-- What a name stands for. -/
inductive Meaning (K : Type)
  | value (z : Numeric K)
  | function (apply : Numeric K → Numeric K)
  | operation (apply : Numeric K → Numeric K → Numeric K)

namespace Meaning

variable {K : Type}

def value? : Meaning K → Option (Numeric K)
  | value z => some z
  | _ => none

def function? : Meaning K → Option (Numeric K → Numeric K)
  | function apply => some apply
  | _ => none

def operation? : Meaning K → Option (Numeric K → Numeric K → Numeric K)
  | operation apply => some apply
  | _ => none

end Meaning

section Values

variable {K : Type} [Kernel K]

/-- The operations of values, by their own names. -/
def operations : List (String × Meaning K) :=
  [("add", .operation (· + ·)), ("sub", .operation (· - ·)), ("mul", .operation (· * ·)),
   ("div", .operation (· / ·)), ("pow", .operation Numeric.pow), ("abs", .function Numeric.abs),
   ("exp", .function Numeric.exp), ("sin", .function Numeric.sin), ("cos", .function Numeric.cos),
   ("tan", .function Numeric.tan), ("sinh", .function Numeric.sinh),
   ("cosh", .function Numeric.cosh), ("tanh", .function Numeric.tanh),
   ("log", .function Numeric.log), ("step", .function Numeric.step)]

/-- What a name stands for.  Variables come before operations. -/
def meaning? (env : Environment K) (name : String) : Option (Meaning K) :=
  match env.lookup name with
  | some z => some (.value z)
  | none => operations.lookup name

variable [Literal K]

/-- The value of a call, if its words are numbers and its names stand for what they are used as. -/
def value (env : Environment K) : Call → Option (Numeric K)
  | constant word => (readScalar word).toOption.map .real
  | var name => (meaning? env name).bind Meaning.value?
  | binary function left right => do
    let apply ← (meaning? env function).bind Meaning.operation?
    let z ← value env left
    let w ← value env right
    return apply z w
  | unary function arg => do
    let apply ← (meaning? env function).bind Meaning.function?
    let z ← value env arg
    return apply z

/-- The value of the call that a text is. -/
def compute (env : Environment K) (text : String) : Option (Numeric K) :=
  (ofString? text).bind (value env)

end Values

end Call

namespace Token

/-- The name that plain calls use for a token, if it is an operator or a function. -/
def callee? (t : Token) : Option String :=
  match t.kind with
  | .operator => Dialect.plain.operators.lookup t.text
  | .function => some t.text
  | _ => none

variable {K : Type}

/-- Whether a variable takes the name that is called for a token. -/
def isShadowed (env : Environment K) (t : Token) : Bool :=
  t.callee?.any fun name => (env.lookup name).isSome

/-- Whether a token is a number that is too large for a finite scalar. -/
def overflows (K : Type) [Kernel K] [Literal K] (t : Token) : Bool :=
  t.kind == .number && (readScalar t.text : Except Fault K).toOption.any fun x => !Kernel.isFinite x

section Same

variable [Literal K] {env : Environment K} {t u : Token} (h : t.Same K u)

include h

theorem Same.isShadowed_eq : t.isShadowed env = u.isShadowed env := by
  rcases h with rfl | ⟨ht, hu, -⟩
  · rfl
  · rw [isShadowed, isShadowed, callee?, callee?, ht, hu]

theorem Same.overflows_eq [Kernel K] : t.overflows K = u.overflows K := by
  rcases h with rfl | ⟨ht, hu, x, hx, hx'⟩
  · rfl
  · rw [overflows, overflows, ht, hu, hx, hx']

end Same

end Token

/-! ### Names of operations -/

namespace Call

section Names

variable {K : Type} [Kernel K] {env : Environment K}

theorem meaning?_of_lookup {x : String} {z : Numeric K} (h : env.lookup x = some z) :
    meaning? env x = some (.value z) := by
  rw [meaning?, h]

theorem meaning?_of_unbound {x : String} (h : env.lookup x = none) :
    meaning? env x = operations.lookup x := by
  rw [meaning?, h]

theorem lookup_plainName (op : Operator) :
    operations.lookup (Dialect.plainName op) = some (.operation (op.apply : Numeric K → _)) := by
  cases op <;> rfl

theorem lookup_symbol (f : Func) :
    operations.lookup f.symbol = some (.function (f.apply : Numeric K → _)) := by
  cases f <;> rfl

theorem callee?_ofOperator (op : Operator) :
    (Token.ofOperator op).callee? = some (Dialect.plainName op) := by
  cases op <;> rfl

/-- An operation is found by its name, unless a variable takes that. -/
theorem bind_meaning? {α : Type} {select : Meaning K → Option α}
    (hselect : ∀ z, select (.value z) = none) {name : String} {m : Meaning K}
    (hname : operations.lookup name = some m) :
    (meaning? env name).bind select = if (env.lookup name).isSome then none else select m := by
  cases h : env.lookup name with
  | some z =>
    rw [meaning?_of_lookup h]
    exact hselect z
  | none =>
    rw [meaning?_of_unbound h, hname]
    rfl

theorem operation_plainName (env : Environment K) (op : Operator) :
    (meaning? env (Dialect.plainName op)).bind Meaning.operation? =
      if (Token.ofOperator op).isShadowed env then none else some op.apply := by
  rw [Token.isShadowed, callee?_ofOperator, Option.any_some]
  exact bind_meaning? (fun _ => rfl) (lookup_plainName op)

theorem function_symbol (env : Environment K) (f : Func) :
    (meaning? env f.symbol).bind Meaning.function? =
      if (Token.ofFunc f).isShadowed env then none else some f.apply := by
  rw [Token.isShadowed, Token.ofFunc, Token.callee?, Option.any_some]
  exact bind_meaning? (fun _ => rfl) (lookup_symbol f)

end Names

/-! ### The words of literals -/

section Words

/-- The text of a number is made of the characters of words. -/
theorem wordChars_signed (negative : Bool) (t : NumberText) :
    ∀ c ∈ (if negative then ['-'] else []) ++ t.chars, isWordChar c = true := by
  have hall : NumberText.alphabet.all isWordChar = true := by decide
  intro c hc
  rcases List.mem_append.1 hc with hc | hc
  · cases negative with
    | true =>
      rw [List.mem_singleton.1 hc]
      rfl
    | false => exact absurd hc List.not_mem_nil
  · exact NumberText.of_all_alphabet hall (t.mem_alphabet c hc)

/-- The text of a number starts as no name does. -/
theorem not_isIdentifier_signed (negative : Bool) (t : NumberText) :
    isIdentifier (String.ofList ((if negative then ['-'] else []) ++ t.chars)) = false := by
  rw [isIdentifier, String.toList_ofList]
  cases negative with
  | true => rfl
  | false =>
    obtain ⟨c, cs, hchars, hc⟩ := t.exists_cons
    have halpha : c.isAlpha = false :=
      Bool.eq_false_iff.2 fun h => not_isDigit_of_isAlpha h hc
    simp [hchars, halpha]

theorem isReadable_ofWord {word : String} (h : ∀ c ∈ word.toList, isWordChar c = true) :
    isReadable (ofWord word) = true := by
  rw [ofWord]
  split
  · rename_i hname
    exact hname
  · rename_i hname
    exact Bool.and_eq_true_iff.2 ⟨by simpa using hname, List.all_eq_true.2 h⟩

theorem isReadable_literal {n : Numeral} (h : n.IsTrimmed) :
    isReadable (ofWord n.literalText) = true := by
  cases n with
  | finite negative d =>
    obtain ⟨t, ht, -⟩ := writes_ofDecimal h Layout.scientific
    refine isReadable_ofWord ?_
    rw [Numeral.literalText, Layout.text, ← ht, String.toList_ofList]
    exact wordChars_signed negative t
  | infinite negative => cases negative <;> decide
  | undefined => decide

/-- The text of a finite number is no name. -/
theorem ofWord_finite {negative : Bool} {d : Decimal} (h : d.trimmed = d) :
    ofWord (Numeral.finite negative d).literalText =
      constant (Numeral.finite negative d).literalText := by
  obtain ⟨t, ht, -⟩ := writes_ofDecimal h Layout.scientific
  rw [ofWord, Numeral.literalText, Layout.text, ← ht, not_isIdentifier_signed]
  rfl

end Words

/-! ### Literals -/

section Literals

open Double Float.Model.UnpackedFloat

variable {lib : Library} {c : Doubles lib} {env : Environment (Doubles lib)}

/-- A finite literal is read as itself. -/
theorem value_finite (h : Kernel.isFinite c = true) :
    value env (Dialect.plainLiteral (Doubles lib) c) = some (.real c) := by
  obtain ⟨negative, d, hnumeral⟩ := exists_toNumeral h
  have htrimmed : (toNumeral c).IsTrimmed := isTrimmed_toNumeral c
  have hread : readScalar (Literal.toNumeral c).literalText = .ok c :=
    readScalar_text Layout.scientific c
  have hword : Dialect.plainLiteral (Doubles lib) c =
      constant (Literal.toNumeral c).literalText := by
    rw [hnumeral] at htrimmed
    have hnumeral' : Literal.toNumeral c = .finite negative d := hnumeral
    rw [Dialect.plainLiteral, hnumeral']
    exact ofWord_finite htrimmed
  rw [hword, value, hread]
  rfl

/-- Any other literal that a formula can say is read as a variable. -/
theorem value_infinite (hc : c.Expressible) (h : Kernel.isFinite c = false) :
    value env (Dialect.plainLiteral (Doubles lib) c) = env.lookup "inf" := by
  have hnumeral : Literal.toNumeral c = .infinite false :=
    toNumeral_infinity (hc.eq_infinity (Bool.eq_false_iff.1 h))
  have hword : Dialect.plainLiteral (Doubles lib) c = var "inf" := by
    rw [Dialect.plainLiteral, hnumeral]
    decide
  rw [hword, value]
  cases hlookup : env.lookup "inf" with
  | some z =>
    rw [meaning?_of_lookup hlookup]
    rfl
  | none =>
    rw [meaning?_of_unbound hlookup]
    rfl

end Literals

/-! ### The calls of a tree -/

section Trees

variable {lib : Library}

/-- The plain calls of a tree. -/
def ofTree (t : Tree (Doubles lib)) : Call :=
  t.toCall (Dialect.plainLiteral (Doubles lib)) Dialect.plainName Func.symbol

theorem isReadable_ofTree {t : Tree (Doubles lib)} (h : t.hasNames = true) :
    isReadable (ofTree t) = true :=
  isReadable_toCall _ _ _ (fun c => isReadable_literal (Double.isTrimmed_toNumeral c))
    (fun op => by cases op <;> decide) isIdentifier_func h

variable {env : Environment (Doubles lib)} {left right arg : Tree (Doubles lib)}

theorem value_var {x : String} {z : Numeric (Doubles lib)} (h : env.lookup x = some z) :
    value env (ofTree (var x : Tree (Doubles lib))) = some z := by
  have hcall : ofTree (var x : Tree (Doubles lib)) = var x := rfl
  rw [hcall, value, meaning?_of_lookup h]
  rfl

theorem value_binary (op : Operator) : value env (ofTree (binary op left right)) =
    if (Token.ofOperator op).isShadowed env then none
    else do
      let z ← value env (ofTree left)
      let w ← value env (ofTree right)
      return op.apply z w := by
  have hcall : ofTree (binary op left right) =
      binary (Dialect.plainName op) (ofTree left) (ofTree right) := rfl
  rw [hcall, value, operation_plainName]
  split <;> rfl

theorem value_unary (f : Func) : value env (ofTree (unary f arg)) =
    if (Token.ofFunc f).isShadowed env then none
    else (value env (ofTree arg)).map f.apply := by
  have hcall : ofTree (unary f arg) = unary f.symbol (ofTree arg) := rfl
  rw [hcall, value, function_symbol]
  split
  · rfl
  · cases value env (ofTree arg) <;> rfl

theorem overflows_token {c : Doubles lib} :
    (Term.token (constant c)).overflows (Doubles lib) = !Kernel.isFinite c := by
  have hread : readScalar (Literal.toNumeral c).plainText = .ok c := readScalar_text Layout.plain c
  rw [Term.token, Token.overflows, hread]
  rfl

variable {t : Tree (Doubles lib)} (hbound : ∀ x, Occurs x t → (env.lookup x).isSome = true)

include hbound

/-- The calls of a tree have its value, if nothing comes in between. -/
theorem value_ofTree (hclean : ∀ s ∈ t.depthFirst,
      s.token.isShadowed env = false ∧ s.token.overflows (Doubles lib) = false) :
    ∃ z, t.evaluate env = .ok z ∧ value env (ofTree t) = some z := by
  induction t with
  | constant c =>
    have hfinite := (hclean _ List.mem_cons_self).2
    rw [overflows_token, Bool.not_eq_false'] at hfinite
    exact ⟨.real c, rfl, value_finite hfinite⟩
  | var x =>
    obtain ⟨z, hz⟩ := Option.isSome_iff_exists.1 (hbound x List.mem_cons_self)
    exact ⟨z, by rw [Term.evaluate, valueOf, hz], value_var hz⟩
  | binary op left right ihl ihr =>
    simp only [occurs_binary, or_imp, forall_and] at hbound
    simp only [depthFirst, List.forall_mem_cons, List.forall_mem_append] at hclean
    obtain ⟨⟨hop, -⟩, hl, hr⟩ := hclean
    obtain ⟨z, hz, hz'⟩ := ihl hbound.1 hl
    obtain ⟨w, hw, hw'⟩ := ihr hbound.2 hr
    refine ⟨op.apply z w, ?_, ?_⟩
    · rw [Term.evaluate, hz, ok_bind, hw, ok_bind, pure_eq_ok]
    · rw [value_binary, hz', hw']
      exact if_neg (Bool.eq_false_iff.1 hop)
  | unary f arg ih =>
    simp only [occurs_unary] at hbound
    simp only [depthFirst, List.forall_mem_cons] at hclean
    obtain ⟨⟨hf, -⟩, harg⟩ := hclean
    obtain ⟨z, hz, hz'⟩ := ih hbound harg
    refine ⟨f.apply z, ?_, ?_⟩
    · rw [Term.evaluate, hz, ok_bind, pure_eq_ok]
    · rw [value_unary, hz']
      exact if_neg (Bool.eq_false_iff.1 hf)

/-- The calls of a tree have a value exactly if no variable is taken for an operation, and one for
the literals that are too large. -/
theorem isSome_value_ofTree (hconstants : t.AllConstants Doubles.Expressible) :
    (value env (ofTree t)).isSome = true ↔ ∀ s ∈ t.depthFirst, s.token.isShadowed env = false ∧
      (s.token.overflows (Doubles lib) = true → (env.lookup "inf").isSome = true) := by
  induction t with
  | constant c =>
    rw [depthFirst, List.forall_mem_singleton, overflows_token]
    have hshadowed : (Term.token (constant c : Tree (Doubles lib))).isShadowed env = false := rfl
    by_cases hfinite : Kernel.isFinite c = true
    · have hvalue : value env (ofTree (constant c)) = some (.real c) := value_finite hfinite
      simp [hvalue, hshadowed, hfinite]
    · have hvalue : value env (ofTree (constant c)) = env.lookup "inf" :=
        value_infinite (allConstants_constant.1 hconstants) (Bool.eq_false_iff.2 hfinite)
      simp [hvalue, hshadowed, hfinite]
  | var x =>
    obtain ⟨z, hz⟩ := Option.isSome_iff_exists.1 (hbound x List.mem_cons_self)
    rw [value_var hz, depthFirst, List.forall_mem_singleton]
    exact iff_of_true rfl ⟨rfl, fun h => absurd h Bool.false_ne_true⟩
  | binary op left right ihl ihr =>
    simp only [occurs_binary, or_imp, forall_and] at hbound
    obtain ⟨hl, hr⟩ := allConstants_binary.1 hconstants
    rw [value_binary, depthFirst, List.forall_mem_cons, List.forall_mem_append,
      ← ihl hbound.1 hl, ← ihr hbound.2 hr]
    have hover : (Token.ofOperator op).overflows (Doubles lib) = false := rfl
    cases value env (ofTree left) <;> cases value env (ofTree right) <;> simp [Term.token, hover]
  | unary f arg ih =>
    simp only [occurs_unary] at hbound
    rw [value_unary, depthFirst, List.forall_mem_cons,
      ← ih hbound (allConstants_unary.1 hconstants)]
    have hover : (Token.ofFunc f).overflows (Doubles lib) = false := rfl
    cases value env (ofTree arg) <;> simp [Term.token, hover]

end Trees

/-! ### The value of source text -/

section Text

variable {lib : Library} {source : String} {sequence : List Token}

/-- **Source text computes what the evaluator computes**, of every formula and for all values of its
variables, as long as no literal is too large and no variable takes the name of an operation that is
called.  It computes something exactly if the latter holds and a variable is called `inf` once a
literal is too large. -/
theorem compute_render (h : parse source = .ok sequence) (env : Environment (Doubles lib))
    (hbound : ∀ x ∈ freeVariables sequence, (env.lookup x).isSome = true) :
    ∃ text z, Dialect.plain.render (Doubles lib) sequence = .ok text ∧
      Formula.evaluate sequence env.toBindings = .ok z ∧
      ((∀ t ∈ sequence, t.isShadowed env = false ∧ t.overflows (Doubles lib) = false) →
        compute env text = some z) ∧
      ((compute env text).isSome = true ↔ ∀ t ∈ sequence, t.isShadowed env = false ∧
        (t.overflows (Doubles lib) = true → (env.lookup "inf").isSome = true)) := by
  have hread : ∀ x : Doubles lib, readScalar (Literal.toNumeral x).plainText = .ok x :=
    readScalar_text Layout.plain
  obtain ⟨t, ht⟩ := (usable_of_parse (Doubles lib) h).tree
  have hreached : Reached t := .parsed h ht
  have hrender := Dialect.render_of_ofPostfix (Dialect.spells_plain (Doubles lib)) ht
  have hcompute : compute env (ofTree t).text = value env (ofTree t) := by
    rw [compute, ofString?_text (isReadable_ofTree hreached.hasNames), Option.bind_some]
  have hevaluate : Formula.evaluate sequence env.toBindings = t.evaluate env := by
    rw [Formula.evaluate, toEnvironment_toBindings, ok_bind, replay_evaluator ht]
  obtain ⟨hknown, hwell⟩ := known_of_parse h
  obtain ⟨z, hz⟩ :=
    (decidedBy_evaluate hknown (toEnvironment_toBindings env) hbound).exists_ok hwell
  have hoccurs : ∀ x, Occurs x t → (env.lookup x).isSome = true := fun x hx =>
    hbound x ((mem_freeVariables_iff_occurs hread ht).2 hx)
  have hclean := forall_token_iff (Q := fun u =>
    u.isShadowed env = false ∧ u.overflows (Doubles lib) = false) hread ht fun hsame h => by
      rwa [← hsame.isShadowed_eq, ← hsame.overflows_eq]
  have hworks := forall_token_iff (Q := fun u => u.isShadowed env = false ∧
    (u.overflows (Doubles lib) = true → (env.lookup "inf").isSome = true)) hread ht
    fun hsame h => by rwa [← hsame.isShadowed_eq, ← hsame.overflows_eq]
  refine ⟨(ofTree t).text, z, hrender, hz, fun h => ?_, ?_⟩
  · obtain ⟨w, hw, hvalue⟩ := value_ofTree hoccurs (hclean.1 h)
    cases (hevaluate ▸ hz).symm.trans hw
    rw [hcompute, hvalue]
  · rw [hcompute, hworks]
    exact isSome_value_ofTree hoccurs hreached.expressible

end Text

/-- A formula of literals, variables, operators and a function. -/
def mixedSample : String := "2.50*x-sin(y)^1e-1"

def mixedSequence : List Token :=
  [⟨.number, "2.50"⟩, ⟨.identifier, "x"⟩, Token.ofOperator .times, ⟨.identifier, "y"⟩,
    Token.ofFunc .sin, ⟨.number, "1e-1"⟩, Token.ofOperator .power, Token.ofOperator .minus]

/-- Values for the variables of the sample, a scalar and a complex number. -/
def mixedBindings : Environment (Doubles .platform) :=
  [("x", .real (3.0 : Float)), ("y", .complex ⟨(0.0 : Float), (1.0 : Float)⟩)]

theorem compute_mixedSample : parse mixedSample = .ok mixedSequence ∧
    (∀ x ∈ freeVariables mixedSequence, (mixedBindings.lookup x).isSome = true) ∧
    ∃ text z, Dialect.plain.render (Doubles .platform) mixedSequence = .ok text ∧
      Formula.evaluate mixedSequence mixedBindings.toBindings = .ok z ∧
      compute mixedBindings text = some z := by
  have hparse : parse mixedSample = .ok mixedSequence := by
    unfold mixedSample mixedSequence
    cbv
  have hbound : ∀ x ∈ freeVariables mixedSequence, (mixedBindings.lookup x).isSome = true := by
    decide
  obtain ⟨text, z, hrender, hvalue, hclean, -⟩ := compute_render hparse mixedBindings hbound
  exact ⟨hparse, hbound, text, z, hrender, hvalue, hclean (by decide +kernel)⟩

/-! ### Literals that are too large -/

/-- What a literal that is too large is read as. -/
def infinite : Doubles .platform := (1.0 / 0.0 : Float)

theorem readScalar_huge : readScalar "1e999" = .ok infinite := by
  have hview : Double.view (1.0 / 0.0) = .infinity .positive := rfl
  have hzero : Double.view (1.0 / 0.0) ≠ .zero .negative := by
    rw [hview]
    exact nofun
  have hdecimal := Double.ofDecimal_of_spells Double.spells_hugeText
  rw [Double.dropZeroSign_of_ne hzero] at hdecimal
  exact (Double.readScalar_chars Double.hugeText).trans (congrArg Except.ok hdecimal)

theorem plainLiteral_infinite : Dialect.plainLiteral _ infinite = var "inf" := by
  have htext : (Literal.toNumeral infinite).literalText = "inf" := by decide +kernel
  rw [Dialect.plainLiteral, htext]
  rfl

/-- A literal that is too large is a formula whose text computes nothing. -/
theorem compute_hugeSample : parse "1e999" = .ok [⟨.number, "1e999"⟩] ∧
    Dialect.plain.render (Doubles .platform) [⟨.number, "1e999"⟩] = .ok "inf" ∧
    Formula.evaluate [⟨.number, "1e999"⟩] [] = .ok (.real infinite) ∧
    compute ([] : Environment (Doubles .platform)) "inf" = none := by
  have htree : ofPostfix [⟨.number, "1e999"⟩] = .ok (constant infinite) := by
    simp only [ofPostfix, Machine.replay, Machine.run_cons, Machine.run_nil, Machine.step, builder,
      readScalar_huge, map_ok, ok_bind, pure_eq_ok]
  have hvalue : Formula.evaluate [⟨.number, "1e999"⟩] [] = (constant infinite).evaluate [] :=
    replay_evaluator htree
  refine ⟨by cbv, ?_, hvalue, by decide⟩
  rw [Dialect.render_of_ofPostfix (Dialect.spells_plain _) htree, toCall, plainLiteral_infinite]
  rfl

/-- A way to give source text a value, given the values of variables. -/
abbrev Reading (K : Type) := Environment K → String → Option (Numeric K)

/-- A reading is faithful if it gives the source text of every formula the value of the formula, for
all values of its variables. -/
def Reading.IsFaithful {K : Type} [Kernel K] [Literal K] (reading : Reading K) : Prop :=
  ∀ source sequence (env : Environment K), parse source = .ok sequence →
    (∀ x ∈ freeVariables sequence, (env.lookup x).isSome = true) →
    ∃ text z, Dialect.plain.render K sequence = .ok text ∧
      Formula.evaluate sequence env.toBindings = .ok z ∧ reading env text = some z

/-- A faithful reading gives the text of a tree the value of the tree. -/
theorem Reading.IsFaithful.evaluate {lib : Library} {reading : Reading (Doubles lib)}
    (hreading : reading.IsFaithful) {source : String} {sequence : List Token}
    (h : parse source = .ok sequence) {t : Tree (Doubles lib)} (ht : ofPostfix sequence = .ok t)
    {env : Environment (Doubles lib)}
    (hbound : ∀ x ∈ freeVariables sequence, (env.lookup x).isSome = true) :
    (reading env (ofTree t).text).map .ok = some (t.evaluate env) := by
  obtain ⟨text, z, hrender, hvalue, hz⟩ := hreading source sequence env h hbound
  rw [Dialect.render_of_ofPostfix (Dialect.spells_plain _) ht] at hrender
  rw [Formula.evaluate, toEnvironment_toBindings, ok_bind, replay_evaluator ht] at hvalue
  cases hrender
  rw [hvalue]
  exact congrArg _ hz

/-- The difference of a variable and a literal that is too large. -/
def hugeDifference : Tree (Doubles .platform) := binary .minus (var "inf") (constant infinite)

/-- The difference of the variable and itself. -/
def nameDifference : Tree (Doubles .platform) := binary .minus (var "inf") (var "inf")

theorem ofTree_hugeDifference : ofTree hugeDifference = ofTree nameDifference :=
  congrArg (binary "sub" (var "inf")) plainLiteral_infinite

/-- The value one for the variable. -/
def unitBinding : Environment (Doubles .platform) := [("inf", .real 1)]

theorem evaluate_hugeDifference :
    hugeDifference.evaluate unitBinding ≠ nameDifference.evaluate unitBinding := by
  intro h
  have hvalues : Except.ok (Numeric.real (1 - infinite)) =
      (.ok (.real (1 - 1)) : Except Fault (Numeric (Doubles .platform))) := h
  have hfinite : Kernel.isFinite (1 - infinite) = Kernel.isFinite (1 - 1 : Doubles .platform) := by
    rw [Numeric.real.inj (Except.ok.inj hvalues)]
  exact absurd hfinite (by decide +kernel)

/-- **No reading of source text is faithful**: a literal that is too large has the text of a
variable, so that two formulas with different values have the same text. -/
theorem not_isFaithful (reading : Reading (Doubles .platform)) : ¬ reading.IsFaithful := by
  intro hreading
  have hhuge : parse "inf-1e999" =
      .ok [⟨.identifier, "inf"⟩, ⟨.number, "1e999"⟩, Token.ofOperator .minus] := by cbv
  have hhugeTree : ofPostfix [⟨.identifier, "inf"⟩, ⟨.number, "1e999"⟩, Token.ofOperator .minus] =
      .ok hugeDifference := by
    simp only [ofPostfix, Machine.replay, Machine.run_cons, Machine.run_nil, Machine.step, builder,
      readScalar_huge, Token.ofOperator, operatorOf_symbol, map_ok, ok_bind, pure_eq_ok,
      hugeDifference]
  have hname : parse "inf-inf" =
      .ok [⟨.identifier, "inf"⟩, ⟨.identifier, "inf"⟩, Token.ofOperator .minus] := by cbv
  have hnameTree : ofPostfix [⟨.identifier, "inf"⟩, ⟨.identifier, "inf"⟩, Token.ofOperator .minus] =
      .ok nameDifference := rfl
  have hbound : ∀ x ∈ ["inf"], (unitBinding.lookup x).isSome = true := by decide
  have hhugeRead := hreading.evaluate hhuge hhugeTree hbound
  have hnameRead := hreading.evaluate hname hnameTree hbound
  rw [ofTree_hugeDifference] at hhugeRead
  exact evaluate_hugeDifference (Option.some.inj (hhugeRead.symm.trans hnameRead))

end Call

end Formula
