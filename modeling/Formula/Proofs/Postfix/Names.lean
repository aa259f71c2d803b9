import Formula.Proofs.Postfix.Namespace

/-!
The names in the text of a shader.  Names and numerals are runs of the same characters, apart from
the sign of an exponent, and a name is what does not begin like a numeral (`names`).  So the names
in a text are those in its parts, wherever it is cut at another character (`names_append_cons`).

Main statement: the names in the text of a formula are those of its tokens, in some order
(`names_render`).  The texts on the stack of the machine that writes it have, at every point, the
names of the tokens before (`stackNames_step`).
-/

namespace Formula

open Token
open scoped List

namespace Shader

/-! ### Names in a text -/

section Names

/-- The characters of names and of numerals without their signs. -/
def isNameChar (c : Char) : Bool := c.isAlphanum || c == '_' || c == '.'

/-- What a name begins with and a numeral does not. -/
def beginsName (word : List Char) : Bool := word.head?.any fun c => c.isAlpha || c == '_'

/-- The names in a text, in order. -/
def names (text : List Char) : List String :=
  ((text.splitOnP (!isNameChar ·)).filter beginsName).map String.ofList

/-- **Any other character separates names.** -/
theorem names_append_cons {c : Char} (hc : isNameChar c = false) (front back : List Char) :
    names (front ++ c :: back) = names front ++ names back := by
  rw [names, List.splitOnP_append_cons front back (by simp [hc]), List.filter_append,
    List.map_append]
  rfl

theorem names_word {word : List Char} (h : ∀ c ∈ word, isNameChar c = true) :
    names word = if beginsName word then [String.ofList word] else [] := by
  rw [names, List.splitOnP_eq_singleton fun c hc => by simp [h c hc], List.filter_singleton]
  cases beginsName word <;> rfl

theorem names_identifier {name : String} (h : isIdentifier name = true) :
    names name.toList = [name] := by
  obtain ⟨c, cs, hname, hc, hall⟩ := toList_identifier h
  have hchars : ∀ d ∈ name.toList, isNameChar d = true := by
    intro d hd
    rw [hname] at hd
    simp [isNameChar, hall d hd]
  rw [names_word hchars, hname, if_pos (by simp [beginsName, hc]), ← hname, String.ofList_toList]

theorem names_cons {c : Char} (hc : isNameChar c = false) (back : List Char) :
    names (c :: back) = names back :=
  names_append_cons hc [] back

theorem names_intercalate (texts : List String) :
    names (", ".intercalate texts).toList = texts.flatMap fun text => names text.toList := by
  induction texts with
  | nil => rfl
  | cons first others ih =>
    cases others with
    | nil => simp
    | cons second others =>
      have htext : (", ".intercalate (first :: second :: others)).toList =
          first.toList ++ ',' :: ' ' :: (", ".intercalate (second :: others)).toList := by
        simp [String.intercalate_cons_cons]
      rw [htext, names_append_cons rfl, names_cons rfl, ih]
      rfl

/-- The names in a call are those of its function and of its arguments. -/
theorem names_call (function : String) (arguments : List String) :
    names (Dialect.call function arguments).toList =
      names function.toList ++ arguments.flatMap fun text => names text.toList := by
  have htext : (Dialect.call function arguments).toList =
      function.toList ++ '(' :: ((", ".intercalate arguments).toList ++ ')' :: []) := by
    simp [Dialect.call]
  have hnil : names [] = [] := rfl
  rw [htext, names_append_cons rfl, names_append_cons rfl, names_intercalate, hnil, List.append_nil]

theorem names_of_digit {word : List Char} (h : ∀ c ∈ word, isNameChar c = true)
    (hhead : word.head?.any Char.isDigit = true) : names word = [] := by
  rw [names_word h, if_neg]
  cases word with
  | nil => cases hhead
  | cons c cs =>
    have hdigit : c.isDigit = true := hhead
    have halpha : ¬ c.isAlpha = true := fun halpha => not_isDigit_of_isAlpha halpha hdigit
    have hscore : c ≠ '_' := by
      rintro rfl
      exact absurd hdigit (by decide)
    simp [beginsName, halpha, hscore]

/-- There is no name in the text of a number: what follows the sign of an exponent are digits. -/
theorem names_chars (t : NumberText) : names t.chars = [] := by
  have hdigit {cs : List Char} (hcs : ∀ c ∈ cs, c.isDigit) : ∀ c ∈ cs, isNameChar c = true :=
    fun c hc => by simp [isNameChar, Char.isAlphanum, hcs c hc]
  obtain ⟨whole, fraction, exponent, hne, hwhole, hfraction, hene, hexponent⟩ := t
  have hfront : ∀ c ∈ whole ++ NumberText.fractionChars fraction, isNameChar c = true := by
    refine List.forall_mem_append.2 ⟨hdigit hwhole, ?_⟩
    cases fraction with
    | none => exact nofun
    | some cs => exact List.forall_mem_cons.2 ⟨rfl, hdigit (hfraction cs rfl)⟩
  rw [NumberText.chars, ← List.append_assoc]
  rcases exponent with _ | ⟨_ | negative, ds⟩
  · rw [NumberText.exponentChars, List.append_nil]
    exact names_of_digit hfront (NumberText.any_isDigit_append hne hwhole _)
  · have hexp : ∀ c ∈ 'e' :: ds, isNameChar c = true :=
      List.forall_mem_cons.2 ⟨rfl, hdigit (hexponent _ rfl)⟩
    refine names_of_digit (List.forall_mem_append.2 ⟨hfront, hexp⟩) ?_
    rw [List.append_assoc]
    exact NumberText.any_isDigit_append hne hwhole _
  · obtain ⟨sign, hsign, hchars⟩ :
        ∃ c, isNameChar c = false ∧ NumberText.signChars (some negative) = [c] := by
      cases negative
      · exact ⟨'+', rfl, rfl⟩
      · exact ⟨'-', rfl, rfl⟩
    have htext : whole ++ NumberText.fractionChars fraction ++
        NumberText.exponentChars (some (some negative, ds)) =
          (whole ++ (NumberText.fractionChars fraction ++ ['e'])) ++ sign :: ds := by
      simp [NumberText.exponentChars, hchars]
    have hmantissa : names (whole ++ (NumberText.fractionChars fraction ++ ['e'])) = [] := by
      refine names_of_digit ?_ (NumberText.any_isDigit_append hne hwhole _)
      rw [← List.append_assoc]
      exact List.forall_mem_append.2 ⟨hfront, List.forall_mem_singleton.2 rfl⟩
    have hdigits : names ds = [] := by
      refine names_of_digit (hdigit (hexponent _ rfl)) ?_
      simpa using NumberText.any_isDigit_append (hene _ rfl) (hexponent _ rfl) []
    rw [htext, names_append_cons hsign, hmantissa, hdigits]
    rfl

theorem names_literal {lib : Library} {c : Doubles lib} (hc : c.Expressible) :
    names (Literal.toNumeral c).literalText.toList = if Kernel.isFinite c then [] else ["inf"] := by
  by_cases hfinite : Kernel.isFinite c = true
  · obtain ⟨negative, d, hnumeral⟩ := Double.exists_toNumeral hfinite
    have htrimmed := Double.isTrimmed_toNumeral c
    rw [hnumeral] at htrimmed
    obtain ⟨t, ht, -⟩ := writes_ofDecimal htrimmed Layout.scientific
    have htext : (Literal.toNumeral c).literalText =
        String.ofList ((if negative then ['-'] else []) ++ t.chars) := by
      rw [ht]
      exact congrArg Numeral.literalText hnumeral
    rw [htext, String.toList_ofList, if_pos hfinite]
    cases negative with
    | true => exact (names_cons rfl _).trans (names_chars t)
    | false => exact names_chars t
  · have hnumeral : Literal.toNumeral c = .infinite false :=
      Double.toNumeral_infinity (hc.eq_infinity hfinite)
    rw [hnumeral, if_neg hfinite]
    decide

end Names

end Shader

/-! ### The names in a formula -/

namespace Token

variable (K : Type) [Kernel K] [Literal K]

/-- The names that a shader uses for a token that is no variable.  A number that is too large is
written as a name. -/
def calls (t : Token) : List String :=
  match t.kind with
  | .number => "r2C" :: if t.overflows K then ["inf"] else []
  | .operator => (Dialect.glsl.operators.lookup t.text).toList
  | .function => [t.text ++ "C"]
  | _ => []

/-- The names that a shader uses for a token. -/
def shaderNames (t : Token) : List String :=
  if t.isVariable then [t.text] else t.calls K

theorem calls_ofOperator (op : Operator) : (ofOperator op).calls K = [Dialect.glslName op] := by
  cases op <;> rfl

theorem calls_ofFunc (f : Func) : (ofFunc f).calls K = [f.symbol ++ "C"] := rfl

end Token

namespace Shader

section Formulas

variable {lib : Library}

/-- The names in the texts on a stack, from the top. -/
def stackNames (stack : List String) : List String := stack.flatMap fun text => names text.toList

theorem stackNames_cons (text : String) (stack : List String) :
    stackNames (text :: stack) = names text.toList ++ stackNames stack := rfl

/-- A number becomes a call around a numeral, or around a name if it is too large. -/
theorem names_number {text : String} {c : Doubles lib} (hread : readScalar text = .ok c)
    (hc : c.Expressible) :
    ∃ literal, (Dialect.glsl.writer (Doubles lib)).number text = .ok literal ∧
      names literal.toList = (⟨.number, text⟩ : Token).shaderNames (Doubles lib) := by
  refine ⟨(Dialect.glslLiteral (Doubles lib) c).text, ?_, ?_⟩
  · simp only [Dialect.writer, Dialect.literalOf, hread, ok_bind, pure_eq_ok]
    exact (Dialect.spells_glsl (Doubles lib)).literal c
  · have hcall : (Dialect.glslLiteral (Doubles lib) c).text =
        Dialect.call "r2C" [(Literal.toNumeral c).literalText] := by
      rw [Dialect.glslLiteral, Call.text, Dialect.plainLiteral, Dialect.text_ofWord]
    have hover : (⟨.number, text⟩ : Token).overflows (Doubles lib) = !Kernel.isFinite c := by
      rw [Token.overflows, hread]
      rfl
    have htoken : (⟨.number, text⟩ : Token).shaderNames (Doubles lib) =
        "r2C" :: if !Kernel.isFinite c then ["inf"] else [] := by
      rw [← hover]
      rfl
    have hname : names "r2C".toList = ["r2C"] := names_identifier (by decide)
    rw [hcall, names_call, List.flatMap_singleton, names_literal hc, htoken, hname]
    cases Kernel.isFinite c <;> rfl

/-- A step brings in the names of its token. -/
theorem stackNames_step {t : Token} (ht : t.Arranged) {stack stack' : List String}
    (h : (Dialect.glsl.writer (Doubles lib)).step stack t = .ok stack') :
    stackNames stack' ~ t.shaderNames (Doubles lib) ++ stackNames stack := by
  have hspells := Dialect.spells_glsl (Doubles lib)
  cases ht with
  | number s =>
    have hread : (readScalar (String.ofList s.chars) : Except Fault (Doubles lib)) =
        .ok (Double.ofDecimal s.decimal) := Double.readScalar_chars s
    obtain ⟨literal, hliteral, hnames⟩ :=
      names_number hread (Doubles.expressible_ofDecimal s.decimal)
    simp only [Machine.step, hliteral, map_ok] at h
    cases h
    rw [stackNames_cons, hnames]
  | operator op =>
    rcases stack with _ | ⟨right, _ | ⟨left, stack⟩⟩
    · cases h
    · cases h
    · simp only [Machine.step, Token.ofOperator, Dialect.writer, lookUp, hspells.operator, ok_bind,
        pure_eq_ok, map_ok] at h
      cases h
      have hcalls : (Token.ofOperator op).shaderNames (Doubles lib) = [Dialect.glslName op] :=
        calls_ofOperator (Doubles lib) op
      have hname : names (Dialect.glslName op).toList = [Dialect.glslName op] :=
        names_identifier (by cases op <;> decide)
      rw [stackNames_cons, names_call, hcalls, hname]
      simp only [List.flatMap_cons, List.flatMap_nil, List.append_nil, stackNames_cons,
        List.append_assoc]
      refine .append_left _ ?_
      rw [← List.append_assoc, ← List.append_assoc]
      exact .append_right _ List.perm_append_comm
  | function f =>
    rcases stack with _ | ⟨arg, stack⟩
    · cases h
    · simp only [Machine.step, Token.ofFunc, Dialect.writer, hspells.function, ok_bind, pure_eq_ok,
        map_ok] at h
      cases h
      have hcalls : (Token.ofFunc f).shaderNames (Doubles lib) = [f.symbol ++ "C"] :=
        calls_ofFunc (Doubles lib) f
      have hname : names (f.symbol ++ "C").toList = [f.symbol ++ "C"] :=
        names_identifier (by cases f <;> decide)
      rw [stackNames_cons, names_call, hcalls, hname, List.flatMap_singleton, stackNames_cons,
        List.append_assoc]
  | @name x hx =>
    cases h
    rw [stackNames_cons, names_identifier (Bool.and_eq_true_iff.1 hx).1]
    rfl
  | opening => cases stack <;> cases h
  | closing => cases stack <;> cases h

theorem stackNames_run {sequence : List Token} (hall : ∀ t ∈ sequence, t.Arranged)
    {stack stack' : List String}
    (h : (Dialect.glsl.writer (Doubles lib)).run stack sequence = .ok stack') :
    stackNames stack' ~ sequence.flatMap (shaderNames (Doubles lib)) ++ stackNames stack := by
  induction sequence generalizing stack with
  | nil =>
    cases h
    exact .refl _
  | cons t ts ih =>
    obtain ⟨ht, hts⟩ := List.forall_mem_cons.1 hall
    rw [Machine.run_cons, bind_eq_ok] at h
    obtain ⟨between, hstep, hrun⟩ := h
    calc stackNames stack'
      _ ~ ts.flatMap (shaderNames (Doubles lib)) ++ stackNames between := ih hts hrun
      _ ~ ts.flatMap (shaderNames (Doubles lib)) ++
          (t.shaderNames (Doubles lib) ++ stackNames stack) :=
        .append_left _ (stackNames_step ht hstep)
      _ ~ (t :: ts).flatMap (shaderNames (Doubles lib)) ++ stackNames stack := by
        rw [← List.append_assoc, List.flatMap_cons]
        exact .append_right _ List.perm_append_comm

/-- **The names in the text of a formula are those of its tokens.** -/
theorem names_render {sequence : List Token} (hall : ∀ t ∈ sequence, t.Arranged) {body : String}
    (h : Dialect.glsl.render (Doubles lib) sequence = .ok body) :
    names body.toList ~ sequence.flatMap (shaderNames (Doubles lib)) := by
  have hrun := stackNames_run hall (Machine.replay_ok_iff.1 h)
  simpa [stackNames] using hrun

end Formulas

end Shader

end Formula
