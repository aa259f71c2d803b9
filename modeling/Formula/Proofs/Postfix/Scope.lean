import Formula.Proofs.Postfix.Names

/-!
What names mean in a shader.  The variables of a formula are pasted into the function of a shader
under their own names, beside the names that the function declares and those that it takes from the
language and the library around it.

A shader is read in two ways.  As a program it has scopes, and a name denotes what the innermost
scope that has it declares (`Program.denoted`).  As a text it is a list of names: the declared
uniforms, the variables of the formula and the names that the text has anyway (`count_names`).

Main statement: the names that are reserved for the function denote what it declares, and every
other variable has one uniform, which it denotes unless the name is taken (`names_of_parse`).
-/

namespace Formula

open Token

namespace Shader

/-! ### Programs -/

/-- What declares a name; the language and its library do so outside of a program. -/
inductive Place
  | outside
  | uniform
  | function
  | parameter
  | localValue
  deriving DecidableEq, Repr

/-- A program of the shading language: uniforms, and a function of a point that names some values
before it returns one. -/
structure Program where
  uniforms : List String
  function : String
  parameter : String
  /-- The names and the texts of their values. -/
  locals : List (String × String)
  result : String

namespace Program

/-- The beginning of a function of a point. -/
def header (function parameter : String) : String :=
  "complex " ++ function ++ " (vec2 " ++ parameter ++ ") \x7b"

/-- The declaration of a name for a value. -/
def assignment (name value : String) : String := "    complex " ++ name ++ " = " ++ value ++ ";"

/-- The text of a program. -/
def text (p : Program) : String :=
  String.join (p.uniforms.map declaration) ++ (header p.function p.parameter ++
    String.join (p.locals.map fun a => assignment a.1 a.2) ++
    "    return " ++ p.result ++ ";" ++ "\x7d")

/-! ### Scopes -/

section Scopes

/-- The names that shaders take from the language and its library. -/
def outsideNames : List String :=
  ["uniform", "return", "complex", "vec2", "IMAG_UNIT", "PI", "r2C"] ++
    Operator.all.map Dialect.glslName ++ Func.all.map fun f => f.symbol ++ "C"

variable (p : Program) (x : String)

/-- The names that are known inside of the function only. -/
def inner : List (String × Place) :=
  (p.parameter, .parameter) :: p.locals.map fun a => (a.1, .localValue)

/-- The names that are known everywhere. -/
def outer : List (String × Place) :=
  (p.function, .function) ::
    (outsideNames.map fun name => (name, .outside)) ++ p.uniforms.map fun name => (name, .uniform)

/-- The places where a scope has a name from. -/
def places (scope : List (String × Place)) : List Place :=
  (scope.filter fun entry => entry.1 == x).map Prod.snd

/-- What a name denotes in the function: all that declares it in the innermost scope that has it. -/
def denoted : List Place :=
  if (places x p.inner).isEmpty then places x p.outer else places x p.inner

variable {p x}

theorem mem_places {scope : List (String × Place)} {place : Place} :
    place ∈ places x scope ↔ (x, place) ∈ scope := by
  simp [places]

theorem places_eq_nil_iff {scope : List (String × Place)} :
    places x scope = [] ↔ x ∉ scope.map Prod.fst := by
  rw [places, List.map_eq_nil_iff, List.filter_eq_nil_iff]
  simp only [beq_iff_eq, List.mem_map, not_exists, not_and]

theorem places_append (scope scope' : List (String × Place)) :
    places x (scope ++ scope') = places x scope ++ places x scope' := by
  simp only [places, List.filter_append, List.map_append]

theorem places_uniforms (uniforms : List String) :
    places x (uniforms.map fun name => (name, .uniform)) =
      List.replicate (uniforms.count x) .uniform := by
  induction uniforms with
  | nil => rfl
  | cons name uniforms ih =>
    rw [← List.singleton_append, List.map_append, places_append, ih, List.count_append,
      List.replicate_add]
    by_cases hname : name = x <;> simp [places, hname]

/-- **A uniform is all that its name denotes, unless the name is taken.** -/
theorem denoted_eq_uniform_iff (h : p.uniforms.count x = 1) : p.denoted x = [.uniform] ↔
    x ∉ p.inner.map Prod.fst ∧ x ≠ p.function ∧ x ∉ outsideNames := by
  by_cases hinner : x ∈ p.inner.map Prod.fst
  · refine iff_of_false (fun hdenoted => ?_) fun htaken => htaken.1 hinner
    have hne : ¬ places x p.inner = [] := fun hnil => places_eq_nil_iff.1 hnil hinner
    rw [denoted, if_neg (by simpa using hne)] at hdenoted
    have huniform : Place.uniform ∈ places x p.inner := by
      rw [hdenoted]
      exact List.mem_singleton_self _
    -- a scope of a function has no uniforms
    simpa [inner] using mem_places.1 huniform
  · have hnil : places x p.inner = [] := places_eq_nil_iff.2 hinner
    rw [denoted, hnil, outer, places_append, places_uniforms, h]
    simp [places_eq_nil_iff, hinner]

end Scopes

/-! ### The names in a program -/

section Names

/-- The type of all values. -/
theorem names_complex : names "complex".toList = ["complex"] := names_identifier (by decide)

theorem names_declaration {x : String} (hx : isIdentifier x = true) (back : List Char) :
    names ((declaration x).toList ++ back) = ["uniform", "complex", x] ++ names back := by
  have htext : (declaration x).toList ++ back =
      "uniform".toList ++ ' ' :: ("complex".toList ++ ' ' ::
        (x.toList ++ ';' :: '\n' :: back)) := by
    show ("uniform complex " ++ x ++ ";\n").toList ++ back = _
    simp only [String.toList_append, List.append_assoc]
    rfl
  have huniform : names "uniform".toList = ["uniform"] := names_identifier (by decide)
  rw [htext, names_append_cons rfl, huniform, names_append_cons rfl, names_complex,
    names_append_cons rfl, names_identifier hx, names_cons rfl]
  rfl

theorem names_header {function parameter : String} (hfunction : isIdentifier function = true)
    (hparameter : isIdentifier parameter = true) (back : List Char) :
    names ((header function parameter).toList ++ back) =
      ["complex", function, "vec2", parameter] ++ names back := by
  have htext : (header function parameter).toList ++ back =
      "complex".toList ++ ' ' :: (function.toList ++ ' ' :: '(' :: ("vec2".toList ++ ' ' ::
        (parameter.toList ++ ')' :: ' ' :: '\x7b' :: back))) := by
    show ("complex " ++ function ++ " (vec2 " ++ parameter ++ ") \x7b").toList ++ back = _
    simp only [String.toList_append, List.append_assoc]
    rfl
  have hvec : names "vec2".toList = ["vec2"] := names_identifier (by decide)
  rw [htext, names_append_cons rfl, names_complex, names_append_cons rfl,
    names_identifier hfunction, names_cons rfl, names_append_cons rfl, hvec, names_append_cons rfl,
    names_identifier hparameter, names_cons rfl, names_cons rfl]
  rfl

theorem names_assignment {name : String} (hname : isIdentifier name = true) (value : String)
    (back : List Char) :
    names ((assignment name value).toList ++ back) =
      "complex" :: name :: names value.toList ++ names back := by
  have htext : (assignment name value).toList ++ back =
      ' ' :: ' ' :: ' ' :: ' ' :: ("complex".toList ++ ' ' :: (name.toList ++
        ' ' :: '=' :: ' ' :: (value.toList ++ ';' :: back))) := by
    show ("    complex " ++ name ++ " = " ++ value ++ ";").toList ++ back = _
    simp only [String.toList_append, List.append_assoc]
    rfl
  rw [htext, names_cons rfl, names_cons rfl, names_cons rfl, names_cons rfl,
    names_append_cons rfl, names_complex, names_append_cons rfl, names_identifier hname,
    names_cons rfl, names_cons rfl, names_append_cons rfl]
  rfl

/-- Texts one after the other, if each of them ends its last name. -/
theorem names_join {α : Type} {texts : α → String} {own : α → List String} {as : List α}
    (h : ∀ a ∈ as, ∀ back, names ((texts a).toList ++ back) = own a ++ names back)
    (back : List Char) :
    names ((String.join (as.map texts)).toList ++ back) = as.flatMap own ++ names back := by
  induction as with
  | nil => rfl
  | cons a as ih =>
    obtain ⟨ha, has⟩ := List.forall_mem_cons.1 h
    have htext : (String.join ((a :: as).map texts)).toList ++ back =
        (texts a).toList ++ ((String.join (as.map texts)).toList ++ back) := by
      simp
    rw [htext, ha, ih has, List.flatMap_cons, List.append_assoc]

/-- The names that a program declares are written like names. -/
structure IsNamed (p : Program) : Prop where
  uniforms : ∀ x ∈ p.uniforms, isIdentifier x = true
  function : isIdentifier p.function = true
  parameter : isIdentifier p.parameter = true
  locals : ∀ a ∈ p.locals, isIdentifier a.1 = true

/-- **The names in the text of a program.** -/
theorem names_text {p : Program} (h : p.IsNamed) :
    names p.text.toList =
      p.uniforms.flatMap (fun x => ["uniform", "complex", x]) ++
        (["complex", p.function, "vec2", p.parameter] ++
          (p.locals.flatMap (fun a => "complex" :: a.1 :: names a.2.toList) ++
            "return" :: names p.result.toList)) := by
  have htext : p.text.toList =
      (String.join (p.uniforms.map declaration)).toList ++
        ((header p.function p.parameter).toList ++
          ((String.join (p.locals.map fun a => assignment a.1 a.2)).toList ++
            (' ' :: ' ' :: ' ' :: ' ' :: ("return".toList ++
              ' ' :: (p.result.toList ++ ';' :: ['\x7d']))))) := by
    simp [text]
  have hreturn : names "return".toList = ["return"] := names_identifier (by decide)
  have hresult : names (p.result.toList ++ ';' :: ['\x7d']) = names p.result.toList ++ [] :=
    names_append_cons rfl _ _
  rw [htext, names_join fun x hx => names_declaration (h.uniforms x hx),
    names_header h.function h.parameter,
    names_join fun a ha => names_assignment (h.locals a ha) a.2, names_cons rfl, names_cons rfl,
    names_cons rfl, names_cons rfl, names_append_cons rfl, hreturn, hresult, List.append_nil]
  rfl

end Names

end Program

/-! ### The program of a shader -/

/-- The program of a shader with the given uniforms. -/
def program (uniforms : List String) (body : String) : Program where
  uniforms := uniforms
  function := "function"
  parameter := "uv"
  locals := [("i", "IMAG_UNIT"), ("pi", "complex(PI, 0.0)"), ("t", "complex(uv[1], 0.0)"),
    ("x", "complex(uv[0], 0.0)")]
  result := body

/-- **The source of a shader is the text of its program.** -/
theorem text_program (uniforms : List String) (body : String) :
    (program uniforms body).text = source ⟨uniforms, functionText body⟩ := by
  have hheader : Program.header "function" "uv" = "complex function (vec2 uv) \x7b" := by
    decide +kernel
  have hi : Program.assignment "i" "IMAG_UNIT" = "    complex i = IMAG_UNIT;" := by
    decide +kernel
  have hpi : Program.assignment "pi" "complex(PI, 0.0)" = "    complex pi = complex(PI, 0.0);" := by
    decide +kernel
  have ht : Program.assignment "t" "complex(uv[1], 0.0)" =
      "    complex t = complex(uv[1], 0.0);" := by
    decide +kernel
  have hx : Program.assignment "x" "complex(uv[0], 0.0)" =
      "    complex x = complex(uv[0], 0.0);" := by
    decide +kernel
  have hjoin (a b c d e : String) : a ++ String.join [b, c, d, e] = a ++ b ++ c ++ d ++ e := by
    simp [String.append_assoc]
  calc (program uniforms body).text
    _ = String.join (uniforms.map declaration) ++
        (Program.header "function" "uv" ++
          String.join [Program.assignment "i" "IMAG_UNIT",
            Program.assignment "pi" "complex(PI, 0.0)",
            Program.assignment "t" "complex(uv[1], 0.0)",
            Program.assignment "x" "complex(uv[0], 0.0)"] ++
          "    return " ++ body ++ ";" ++ "\x7d") := rfl
    _ = String.join (uniforms.map declaration) ++ functionText body := by
      rw [hjoin, hheader, hi, hpi, ht, hx]
      rfl
    _ = source ⟨uniforms, functionText body⟩ := rfl

theorem isNamed_program {uniforms : List String} (h : ∀ x ∈ uniforms, isIdentifier x = true)
    (body : String) : (program uniforms body).IsNamed where
  uniforms := h
  function := (by decide : isIdentifier "function" = true)
  parameter := (by decide : isIdentifier "uv" = true)
  locals := by
    simp only [program]
    decide

/-! ### The names in a shader -/

section Sources

/-- The names in the function of a shader outside of its result. -/
def frameNames : List String :=
  ["complex", "function", "vec2", "uv", "complex", "i", "IMAG_UNIT", "complex", "pi", "complex",
    "PI", "complex", "t", "complex", "uv", "complex", "x", "complex", "uv", "return"]

/-- The names in the source of a shader that are neither declared uniforms nor variables of the
formula. -/
def otherNames (K : Type) [Kernel K] [Literal K] (uniforms : List String)
    (sequence : List Token) : List String :=
  uniforms.flatMap (fun _ => ["uniform", "complex"]) ++
    (frameNames ++ sequence.flatMap (calls K))

theorem names_program {uniforms : List String} (h : ∀ x ∈ uniforms, isIdentifier x = true)
    (body : String) : names (program uniforms body).text.toList =
      uniforms.flatMap (fun x => ["uniform", "complex", x]) ++
        (frameNames ++ names body.toList) := by
  have hvalues : (program uniforms body).locals.flatMap
      (fun a => "complex" :: a.1 :: names a.2.toList) =
        ["complex", "i", "IMAG_UNIT", "complex", "pi", "complex", "PI", "complex", "t", "complex",
          "uv", "complex", "x", "complex", "uv"] := by
    simp only [program]
    decide +kernel
  rw [Program.names_text (isNamed_program h body), hvalues]
  rfl

theorem count_declarations (x : String) (uniforms : List String) :
    (uniforms.flatMap fun x => ["uniform", "complex", x]).count x =
      uniforms.count x + (uniforms.flatMap fun _ => ["uniform", "complex"]).count x := by
  induction uniforms with
  | nil => rfl
  | cons y others ih =>
    simp only [List.flatMap_cons, List.count_append, ih, List.count_cons, List.count_nil]
    omega

theorem count_shaderNames (K : Type) [Kernel K] [Literal K] (x : String) (sequence : List Token) :
    (sequence.flatMap (shaderNames K)).count x =
      sequence.count ⟨.identifier, x⟩ + (sequence.flatMap (calls K)).count x := by
  induction sequence with
  | nil => rfl
  | cons t ts ih =>
    have htoken : (t.shaderNames K).count x =
        [t].count ⟨.identifier, x⟩ + (t.calls K).count x := by
      obtain ⟨kind, text⟩ := t
      cases kind with
      | identifier => simp [shaderNames, isVariable, calls, List.count_singleton]
      | _ => simp [shaderNames, isVariable]
    have hcons : (t :: ts).count ⟨.identifier, x⟩ =
        [t].count ⟨.identifier, x⟩ + ts.count ⟨.identifier, x⟩ := by
      rw [← List.count_append, List.singleton_append]
    rw [List.flatMap_cons, List.flatMap_cons, List.count_append, List.count_append, ih, htoken,
      hcons]
    omega

/-- **What the names in the source of a shader are**: declared uniforms, variables of the formula and
the others. -/
theorem count_names {lib : Library} {uniforms : List String}
    (huniforms : ∀ x ∈ uniforms, isIdentifier x = true) {sequence : List Token}
    (hall : ∀ t ∈ sequence, t.Arranged) {body : String}
    (hbody : Dialect.glsl.render (Doubles lib) sequence = .ok body) (x : String) :
    (names (program uniforms body).text.toList).count x = uniforms.count x +
      sequence.count ⟨.identifier, x⟩ + (otherNames (Doubles lib) uniforms sequence).count x := by
  rw [names_program huniforms, List.count_append, List.count_append, count_declarations,
    (names_render hall hbody).count_eq, count_shaderNames, otherNames, List.count_append,
    List.count_append]
  omega

end Sources

/-! ### The uniforms of a shader -/

section Uniforms

theorem nodup_eraseDups (xs : List String) : xs.eraseDups.Nodup := by
  cases xs with
  | nil => exact List.nodup_nil
  | cons x xs =>
    rw [List.eraseDups_cons, List.nodup_cons, List.mem_eraseDups]
    exact ⟨by simp, nodup_eraseDups _⟩
termination_by xs.length
decreasing_by exact Nat.lt_succ_of_le (List.length_filter_le _ _)

theorem nodup_sortNames (xs : List String) : (sortNames xs).Nodup :=
  (List.mergeSort_perm _ _).nodup_iff.2 (nodup_eraseDups xs)

theorem mem_sortNames {xs : List String} {x : String} : x ∈ sortNames xs ↔ x ∈ xs :=
  (List.mergeSort_perm _ _).mem_iff.trans List.mem_eraseDups

/-- The variables of a formula that are not reserved are the uniforms of its shader. -/
theorem ofSequence_eq {K : Type} [Literal K] {reserved : List String} {sequence : List Token}
    {s : Shader} (h : ofSequence K reserved sequence = .ok s) :
    ∃ body, Dialect.glsl.render K sequence = .ok body ∧ s.source = (program s.uniforms body).text ∧
      s.uniforms.Nodup ∧ ∀ x, x ∈ s.uniforms ↔ x ∈ freeVariables sequence ∧ x ∉ reserved := by
  simp only [ofSequence, bind_eq_ok] at h
  obtain ⟨body, hbody, h⟩ := h
  cases h
  refine ⟨body, hbody, (text_program _ _).symm, nodup_sortNames _, fun x => ?_⟩
  rw [mem_sortNames, List.mem_filter]
  simp

end Uniforms

/-! ### What the variables of a formula mean -/

/-- The names that a program of this form declares without a uniform, or takes from outside. -/
def takenNames : List String := "uv" :: "function" :: Program.outsideNames

/-- Calls have no other names than these, apart from that of a literal that is too large. -/
theorem taken_of_mem_calls {K : Type} [Kernel K] [Literal K] {t : Token} (ht : t.Arranged)
    {x : String} (hx : x ∈ t.calls K) : x ∈ takenNames ∨ x = "inf" := by
  cases ht with
  | number s =>
    rcases List.mem_cons.1 hx with rfl | hx
    · exact .inl (by decide)
    · split at hx
      · exact .inr (List.mem_singleton.1 hx)
      · exact absurd hx List.not_mem_nil
  | operator op =>
    rw [calls_ofOperator, List.mem_singleton] at hx
    rw [hx]
    exact .inl (by cases op <;> decide)
  | function f =>
    rw [calls_ofFunc, List.mem_singleton] at hx
    rw [hx]
    exact .inl (by cases f <;> decide)
  | name hname => exact absurd hx List.not_mem_nil
  | opening => exact absurd hx List.not_mem_nil
  | closing => exact absurd hx List.not_mem_nil

theorem taken_of_mem_otherNames {K : Type} [Kernel K] [Literal K] {uniforms : List String}
    {sequence : List Token} (hall : ∀ t ∈ sequence, t.Arranged) {x : String}
    (hlocal : x ∉ localNames) (hx : x ∈ otherNames K uniforms sequence) :
    x ∈ takenNames ∨ x = "inf" := by
  have hdeclaration : ∀ y ∈ ["uniform", "complex"], y ∈ takenNames := by decide
  have hframe : ∀ y ∈ frameNames, y ∈ localNames ∨ y ∈ takenNames := by decide
  simp only [otherNames, List.mem_append, List.mem_flatMap] at hx
  rcases hx with ⟨-, -, hx⟩ | hx | ⟨t, ht, hx⟩
  · exact .inl (hdeclaration x hx)
  · exact .inl ((hframe x hx).resolve_left hlocal)
  · exact taken_of_mem_calls (hall t ht) hx

/-- **Names in a shader mean what they are said to**: the reserved ones what the function declares,
and every other variable of the formula its only uniform, unless the name is taken.  The source has
the name in no other meaning, unless the function or a call in the formula uses it; such a name is
taken, or it is that of a literal that is too large. -/
theorem names_of_parse (lib : Library) {source : String} {sequence : List Token}
    (h : parse source = .ok sequence) :
    ∃ s body, ofSequence (Doubles lib) localNames sequence = .ok s ∧
      Dialect.glsl.render (Doubles lib) sequence = .ok body ∧
      s.source = (program s.uniforms body).text ∧
      ∀ x ∈ freeVariables sequence,
        (x ∈ localNames → (program s.uniforms body).denoted x = [.localValue]) ∧
        (x ∉ localNames → s.uniforms.count x = 1 ∧
          ((program s.uniforms body).denoted x = [.uniform] ↔ x ∉ takenNames) ∧
          ((names s.source.toList).count x = 1 + sequence.count ⟨.identifier, x⟩ ↔
            x ∉ otherNames (Doubles lib) s.uniforms sequence) ∧
          (x ∈ otherNames (Doubles lib) s.uniforms sequence → x ∈ takenNames ∨ x = "inf")) := by
  obtain ⟨harranged, -⟩ := arranged_of_parse h
  obtain ⟨s, hs⟩ := (usable_of_parse (Doubles lib) h).shader localNames
  obtain ⟨body, hbody, hsource, hnodup, hmem⟩ := ofSequence_eq hs
  refine ⟨s, body, hs, hbody, hsource, fun x hx => ⟨fun hlocal => ?_, fun hlocal => ?_⟩⟩
  · simp only [localNames, List.mem_cons, List.not_mem_nil, or_false] at hlocal
    rcases hlocal with rfl | rfl | rfl | rfl <;> rfl
  · have huniforms : ∀ y ∈ s.uniforms, isIdentifier y = true := by
      intro y hy
      cases harranged _ (mem_freeVariables.1 ((hmem y).1 hy).1) with
      | name hname => exact (Bool.and_eq_true_iff.1 hname).1
    have hcount : s.uniforms.count x = 1 :=
      List.count_eq_one_of_mem hnodup ((hmem x).2 ⟨hx, hlocal⟩)
    refine ⟨hcount, ?_, ?_, taken_of_mem_otherNames harranged hlocal⟩
    · have hinner : (program s.uniforms body).inner.map Prod.fst = ["uv", "i", "pi", "t", "x"] :=
        rfl
      simp only [localNames, List.mem_cons, List.not_mem_nil, or_false, not_or] at hlocal
      rw [Program.denoted_eq_uniform_iff hcount, hinner]
      simp [program, takenNames, hlocal]
    · rw [hsource, count_names huniforms harranged hbody, hcount, ← List.count_eq_zero]
      omega

/-- A formula of a variable, a reserved one and a literal. -/
def scaledSource : String := "a*sin(x)-2.5"

def scaledSequence : List Token :=
  [⟨.identifier, "a"⟩, ⟨.identifier, "x"⟩, Token.ofFunc .sin, Token.ofOperator .times,
    ⟨.number, "2.5"⟩, Token.ofOperator .minus]

theorem names_scaledSource : parse scaledSource = .ok scaledSequence ∧
    ∃ s body, ofSequence (Doubles .platform) localNames scaledSequence = .ok s ∧
      s.source = (program s.uniforms body).text ∧
      (program s.uniforms body).denoted "x" = [.localValue] ∧
      s.uniforms.count "a" = 1 ∧ (program s.uniforms body).denoted "a" = [.uniform] ∧
      (names s.source.toList).count "a" = 2 := by
  have hparse : parse scaledSource = .ok scaledSequence := by
    unfold scaledSource scaledSequence
    cbv
  obtain ⟨s, body, hs, -, hsource, hnames⟩ := names_of_parse .platform hparse
  have hx : "x" ∈ freeVariables scaledSequence := by decide
  have ha : "a" ∈ freeVariables scaledSequence := by decide
  obtain ⟨hcount, hdenoted, hwords, -⟩ := (hnames "a" ha).2 (by decide)
  have hother : "a" ∉ otherNames (Doubles .platform) s.uniforms scaledSequence := by
    have hframe : "a" ∉ frameNames ++ scaledSequence.flatMap (calls (Doubles .platform)) := by
      decide +kernel
    rw [otherNames, List.mem_append, not_or]
    exact ⟨by simp, hframe⟩
  exact ⟨hparse, s, body, hs, hsource, (hnames "x" hx).1 (by decide), hcount,
    hdenoted.2 (by decide), hwords.2 hother⟩

/-- **A name that is taken is not the uniform that is declared for it**: what the formula returns
here is the parameter of the function. -/
theorem denoted_parameter : parse "uv" = .ok [⟨.identifier, "uv"⟩] ∧ "uv" ∉ localNames ∧
    ofSequence (Doubles .platform) localNames [⟨.identifier, "uv"⟩] =
      .ok ⟨["uv"], functionText "uv"⟩ ∧
    source ⟨["uv"], functionText "uv"⟩ = (program ["uv"] "uv").text ∧
    (program ["uv"] "uv").denoted "uv" = [.parameter] := by
  have hrender : Dialect.glsl.render (Doubles .platform) [⟨.identifier, "uv"⟩] = .ok "uv" := rfl
  have hsort : sortNames ["uv"] = ["uv"] := List.mergeSort_singleton _
  refine ⟨by cbv, by decide, ?_, (text_program _ _).symm, by decide⟩
  have hfree : (freeVariables [⟨.identifier, "uv"⟩]).filter (!localNames.contains ·) = ["uv"] := by
    decide
  rw [ofSequence, hrender, ok_bind, hfree, hsort]
  rfl

example : (program ["sinC"] "sinC").denoted "sinC" = [.outside, .uniform] := by decide

end Shader

end Formula
