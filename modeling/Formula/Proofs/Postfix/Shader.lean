import Formula.Proofs.Postfix.Namespace
import Formula.Proofs.Tree.Doubles

/-!
Shader text is unambiguous.  Variables are called what the formula calls them, perhaps like a
function of the shader or like a literal that is too large, but only calls have parentheses, and no
function is called like the one around a literal.  So different trees are made into different calls
(`Distinguishes.toCall_injective`), whose texts differ as well (`Call.text_injective`).

Main statement: two formulas have the same shader text exactly if their trees are equal
(`text_eq_iff_of_parse`).
-/

namespace Formula

open Term

/-! ### Trees that are made into the same calls -/

section Calls

variable {κ : Type} {literal : κ → Call} {operator : Operator → String} {function : Func → String}

/-- Different literals, operators and functions are spelled differently, and no literal looks like a
variable or a call of the others. -/
structure Distinguishes (literal : κ → Call) (operator : Operator → String)
    (function : Func → String) : Prop where
  literal_injective : Function.Injective literal
  operator_injective : Function.Injective operator
  function_injective : Function.Injective function
  ne_var : ∀ c x, literal c ≠ var x
  ne_binary : ∀ c op left right, literal c ≠ binary (operator op) left right
  ne_unary : ∀ c f arg, literal c ≠ unary (function f) arg

/-- **Different trees are made into different calls.** -/
theorem Distinguishes.toCall_injective (h : Distinguishes literal operator function) :
    Function.Injective (Term.toCall literal operator function) := by
  intro t u htu
  induction t generalizing u with
  | constant c =>
    cases u with
    | constant d => exact congrArg constant (h.literal_injective htu)
    | var x => exact absurd htu (h.ne_var c x)
    | binary op left right => exact absurd htu (h.ne_binary c op _ _)
    | unary f arg => exact absurd htu (h.ne_unary c f _)
  | var x =>
    cases u with
    | constant d => exact absurd htu.symm (h.ne_var d x)
    | var y => exact congrArg var (Term.var.inj htu)
    | binary op left right => cases htu
    | unary f arg => cases htu
  | binary op left right ihl ihr =>
    cases u with
    | constant d => exact absurd htu.symm (h.ne_binary d op _ _)
    | var y => cases htu
    | binary op' left' right' =>
      obtain ⟨hop, hl, hr⟩ := Term.binary.inj htu
      rw [h.operator_injective hop, ihl hl, ihr hr]
    | unary f arg => cases htu
  | unary f arg ih =>
    cases u with
    | constant d => exact absurd htu.symm (h.ne_unary d f _)
    | var y => cases htu
    | binary op left right => cases htu
    | unary f' arg' =>
      obtain ⟨hf, harg⟩ := Term.unary.inj htu
      rw [h.function_injective hf, ih harg]

/-- Calls that can be read differ in their texts. -/
theorem Call.text_injective {a b : Call} (ha : isReadable a = true) (hb : isReadable b = true)
    (h : text a = text b) : a = b := by
  have hread := ofString?_text ha
  rw [h, ofString?_text hb] at hread
  exact (Option.some.inj hread).symm

end Calls

/-! ### The calls of a shader -/

namespace Dialect

variable {lib : Library}

theorem plainLiteral_injective : Function.Injective (plainLiteral (Doubles lib)) := by
  intro c d h
  have htext : (Literal.toNumeral c).literalText = (Literal.toNumeral d).literalText := by
    simpa only [plainLiteral, text_ofWord] using congrArg Call.text h
  have hread : readScalar (Literal.toNumeral c).literalText = .ok c :=
    readScalar_text Layout.scientific c
  have hread' : readScalar (Literal.toNumeral d).literalText = .ok d :=
    readScalar_text Layout.scientific d
  rw [htext, hread'] at hread
  exact (Except.ok.inj hread).symm

/-- **A shader tells all trees apart**, while in plain calls a literal may look like a variable. -/
theorem distinguishes_glsl :
    Distinguishes (glslLiteral (Doubles lib)) glslName (fun f => f.symbol ++ "C") where
  literal_injective c d h := plainLiteral_injective (Term.unary.inj h).2
  operator_injective op op' := by cases op <;> cases op' <;> decide
  function_injective f f' := by cases f <;> cases f' <;> decide
  ne_var c x := nofun
  ne_binary c op left right := nofun
  ne_unary c f arg h := by
    have hname : ∀ f : Func, "r2C" ≠ f.symbol ++ "C" := by
      intro f
      cases f <;> decide
    exact hname f (Term.unary.inj h).1

/-- The calls of a tree in a shader. -/
def shaderCall (t : Tree (Doubles lib)) : Call :=
  t.toCall (glslLiteral (Doubles lib)) glslName fun f => f.symbol ++ "C"

theorem isReadable_shaderCall {t : Tree (Doubles lib)} (h : t.hasNames = true) :
    Call.isReadable (shaderCall t) = true := by
  refine isReadable_toCall _ _ _ (fun c => ?_) (fun op => ?_) (fun f => ?_) h
  · exact Bool.and_eq_true_iff.2 ⟨by decide, Call.isReadable_literal (Double.isTrimmed_toNumeral c)⟩
  · cases op <;> decide
  · cases f <;> decide

end Dialect

/-! ### Equal trees -/

namespace Term

/-- Trees are the same if they are equal and equal constants are the same. -/
theorem eq_of_equal {κ : Type} {P : κ → Prop} {same : κ → κ → Bool}
    (hsame : ∀ {c d}, P c → P d → same c d = true → c = d) {t u : Tree κ} (ht : t.AllConstants P)
    (hu : u.AllConstants P) (h : t.equal same u = true) : t = u := by
  induction t generalizing u with
  | constant c =>
    cases u with
    | constant d =>
      exact congrArg constant (hsame (allConstants_constant.1 ht) (allConstants_constant.1 hu) h)
    | _ => cases h
  | var x =>
    cases u with
    | var y => exact congrArg var (eq_of_beq h)
    | _ => cases h
  | binary op left right ihl ihr =>
    cases u with
    | binary op' left' right' =>
      simp only [equal, Bool.and_eq_true, beq_iff_eq] at h
      obtain ⟨⟨rfl, hl⟩, hr⟩ := h
      obtain ⟨htl, htr⟩ := allConstants_binary.1 ht
      obtain ⟨hul, hur⟩ := allConstants_binary.1 hu
      rw [ihl htl hul hl, ihr htr hur hr]
    | _ => cases h
  | unary f arg ih =>
    cases u with
    | unary f' arg' =>
      simp only [equal, Bool.and_eq_true, beq_iff_eq] at h
      obtain ⟨rfl, harg⟩ := h
      rw [ih (allConstants_unary.1 ht) (allConstants_unary.1 hu) harg]
    | _ => cases h

section Doubles

open Double

variable {lib : Library}

/-- The constant has no minus and is defined. -/
def Unsigned (c : Doubles lib) : Prop := NonNegative c.view

theorem hereditary_unsigned : Hereditary fun t => AllConstants (@Unsigned lib) t where
  number s := allConstants_constant.2 (nonNegative_ofDecimal s.decimal)
  name _ := allConstants_var _
  binary _ _ _ hl hr := allConstants_binary.2 ⟨hl, hr⟩
  unary _ _ h := allConstants_unary.2 h

/-- Without a minus there is one zero only. -/
theorem Unsigned.eq_of_same {c d : Doubles lib} (hc : Unsigned c) (hd : Unsigned d)
    (h : Constant.same c d = true) : c = d := by
  have hself : Kernel.eq c c = true := by
    refine Doubles.eq_iff.2 (.inl ⟨rfl, fun hnan => ?_⟩)
    rw [Unsigned, hnan] at hc
    exact hc
  have heq : Kernel.eq c d = true := by
    have hor : (Kernel.eq c d || (!Kernel.eq c c && !Kernel.eq d d)) = true := h
    simpa [hself] using hor
  rcases Doubles.eq_iff.1 heq with ⟨hview, -⟩ | ⟨hzero, hzero'⟩
  · exact view_injective hview
  · obtain ⟨s, hs⟩ := hzero.eq_zero
    obtain ⟨s', hs'⟩ := hzero'.eq_zero
    rw [Unsigned, hs] at hc
    rw [Unsigned, hs'] at hd
    obtain rfl : s = .positive := hc
    obtain rfl : s' = .positive := hd
    exact view_injective (hs.trans hs'.symm)

end Doubles

end Term

/-! ### The text of a formula -/

namespace Dialect

/-- **Formulas have the same shader text exactly if their trees are equal.** -/
theorem text_eq_iff_of_parse (lib : Library) {source source' : String}
    {sequence sequence' : List Token} (h : parse source = .ok sequence)
    (h' : parse source' = .ok sequence') :
    ∃ text text', ∃ t t' : Tree (Doubles lib),
      glsl.render (Doubles lib) sequence = .ok text ∧
      glsl.render (Doubles lib) sequence' = .ok text' ∧
      ofPostfix sequence = .ok t ∧ ofPostfix sequence' = .ok t' ∧ (text = text' ↔ t == t') := by
  obtain ⟨t, ht⟩ := (usable_of_parse (Doubles lib) h).tree
  obtain ⟨t', ht'⟩ := (usable_of_parse (Doubles lib) h').tree
  refine ⟨_, _, t, t', render_of_ofPostfix (spells_glsl _) ht,
    render_of_ofPostfix (spells_glsl _) ht', ht, ht', ?_⟩
  constructor
  · intro htext
    have hcalls : shaderCall t = shaderCall t' :=
      Call.text_injective (isReadable_shaderCall (Reached.parsed h ht).hasNames)
        (isReadable_shaderCall (Reached.parsed h' ht').hasNames) htext
    rw [distinguishes_glsl.toCall_injective hcalls]
    exact beq_self t'
  · intro hequal
    rw [eq_of_equal Unsigned.eq_of_same (hereditary_unsigned.of_parse h ht)
      (hereditary_unsigned.of_parse h' ht') hequal]

/-- The difference of two variables, called like a literal and like a function of the shader. -/
def borrowedNames : List Token :=
  [⟨.identifier, "inf"⟩, ⟨.identifier, "sinC"⟩, Token.ofOperator .minus]

/-- The difference of that literal and a call of that function. -/
def borrowedFrom : List Token :=
  [⟨.number, "1e999"⟩, ⟨.identifier, "C"⟩, Token.ofFunc .sin, Token.ofOperator .minus]

theorem text_ne_borrowedNames : parse "inf-sinC" = .ok borrowedNames ∧
    parse "1e999-sin(C)" = .ok borrowedFrom ∧
    ∃ text text', glsl.render (Doubles .platform) borrowedNames = .ok text ∧
      glsl.render (Doubles .platform) borrowedFrom = .ok text' ∧ text ≠ text' := by
  have hnames : parse "inf-sinC" = .ok borrowedNames := by
    unfold borrowedNames
    cbv
  have hfrom : parse "1e999-sin(C)" = .ok borrowedFrom := by
    unfold borrowedFrom
    cbv
  have hnamesTree : ofPostfix borrowedNames =
      .ok (binary .minus (var "inf") (var "sinC") : Tree (Doubles .platform)) := rfl
  have hfromTree : ofPostfix borrowedFrom =
      .ok (binary .minus (constant Call.infinite) (unary .sin (var "C"))) := by
    simp only [borrowedFrom, ofPostfix, Machine.replay, Machine.run_cons, Machine.run_nil,
      Machine.step, builder, Call.readScalar_huge, Token.ofOperator, Token.ofFunc,
      operatorOf_symbol, funcOf_symbol, map_ok, ok_bind, pure_eq_ok]
  obtain ⟨text, text', t, t', htext, htext', ht, ht', hiff⟩ :=
    text_eq_iff_of_parse .platform hnames hfrom
  refine ⟨hnames, hfrom, text, text', htext, htext', fun heq => ?_⟩
  -- a variable is no constant, whatever it is called
  have hequal := hiff.1 heq
  cases hnamesTree.symm.trans ht
  cases hfromTree.symm.trans ht'
  cases hequal

end Dialect

end Formula
