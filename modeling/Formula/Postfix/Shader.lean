import Formula.Postfix.Dialect

/-!
Shader source around a formula: a function of a point of the plane whose body returns the formula,
preceded by a uniform for every variable that the function does not define itself.
-/

namespace Formula

/-- The source of a shader, in two parts. -/
structure Shader where
  /-- The variables that the caller has to supply, in order. -/
  uniforms : List String
  /-- The text of the function. -/
  function : String
  deriving DecidableEq, Repr

namespace Shader

/-- The names that the function defines. -/
def localNames : List String := ["i", "x", "pi", "t"]

/-- The declaration of a uniform. -/
def declaration (name : String) : String := "uniform complex " ++ name ++ ";\n"

/-- The declarations of all uniforms. -/
def declarations (s : Shader) : String := String.join (s.uniforms.map declaration)

/-- The whole source. -/
def source (s : Shader) : String := s.declarations ++ s.function

/-- The function that returns a formula given as source text. -/
def functionText (body : String) : String :=
  "complex function (vec2 uv) \x7b" ++
  "    complex i = IMAG_UNIT;" ++
  "    complex pi = complex(PI, 0.0);" ++
  "    complex t = complex(uv[1], 0.0);" ++
  "    complex x = complex(uv[0], 0.0);" ++
  "    return " ++ body ++ ";" ++
  "\x7d"

/-- The shader of a postfix sequence; variables among the reserved names become no uniforms. -/
def ofSequence (K : Type) [Literal K] (reserved : List String) (sequence : List Token) :
    Except Fault Shader := do
  let free := (freeVariables sequence).filter (!reserved.contains ·)
  let body ← Dialect.glsl.render K sequence
  return ⟨sortNames free, functionText body⟩

end Shader

end Formula
