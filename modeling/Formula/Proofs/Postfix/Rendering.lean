import Formula.Proofs.Postfix.Calls
import Formula.Proofs.Postfix.Consumers
import Formula.Proofs.Tree.Printing

/-!
Rendering is printing the tree.  A dialect that spells literals, operators and functions writes for
a sequence the text of the calls that the tree of the sequence is made into (`render_of_ofPostfix`):
at every point the texts on its stack are those of the trees on the stack of the machine that builds
them (`texts_step`).
-/

namespace Formula

/-! ### Trees as calls -/

section Calls

variable {κ : Type} (literal : κ → Call) (operator : Operator → String) (function : Func → String)

/-- A tree as nested calls. -/
def Term.toCall : Tree κ → Call
  | constant c => literal c
  | var x => .var x
  | binary op left right => .binary (operator op) (toCall left) (toCall right)
  | unary f arg => .unary (function f) (toCall arg)

/-- A tree whose names are names is made into calls that can be read. -/
theorem Term.isReadable_toCall (hliteral : ∀ c, Call.isReadable (literal c) = true)
    (hoperator : ∀ op, isIdentifier (operator op) = true)
    (hfunction : ∀ f, isIdentifier (function f) = true) {t : Tree κ} (h : t.hasNames = true) :
    Call.isReadable (t.toCall literal operator function) = true := by
  induction t with
  | constant c => exact hliteral c
  | var x => exact (Bool.and_eq_true_iff.1 h).1
  | binary op left right ihl ihr =>
    obtain ⟨hl, hr⟩ := Bool.and_eq_true_iff.1 h
    simp only [toCall, Call.isReadable, hoperator op, ihl hl, ihr hr, Bool.and_self]
  | unary f arg ih => simp only [toCall, Call.isReadable, hfunction f, ih h, Bool.and_self]

end Calls

namespace Dialect

section Rendering

variable {K : Type} [Literal K]

/-- How a dialect spells the parts of a tree. -/
structure Spells (d : Dialect) (literal : K → Call) (operator : Operator → String)
    (function : Func → String) : Prop where
  literal : ∀ c : K, d.literal.fill (Literal.toNumeral c).literalText = .ok (literal c).text
  operator : ∀ op : Operator, d.operators.lookup op.symbol = some (operator op)
  function : ∀ f : Func, d.function.fill f.symbol = .ok (function f)

variable {d : Dialect} {literal : K → Call} {operator : Operator → String}
  {function : Func → String} (hd : d.Spells literal operator function)

include hd

/-- A step on the texts of trees leads to the texts of the trees that the step builds. -/
theorem texts_step {stack stack' : List (Tree K)} {t : Token}
    (h : Term.builder.step stack t = .ok stack') :
    (d.writer K).step (stack.map fun u => (u.toCall literal operator function).text) t =
      .ok (stack'.map fun u => (u.toCall literal operator function).text) := by
  cases Term.builds_of_step h with
  | number hread =>
    simp only [Machine.step, writer, literalOf, hread, ok_bind, pure_eq_ok, hd.literal, map_ok,
      List.map_cons, Term.toCall]
  | name stack x => rfl
  | operator stack op left right =>
    simp only [Machine.step, Token.ofOperator, List.map_cons, writer, lookUp, hd.operator, ok_bind,
      pure_eq_ok, map_ok, Term.toCall, Call.text]
  | function stack f arg =>
    simp only [Machine.step, Token.ofFunc, List.map_cons, writer, hd.function, ok_bind, pure_eq_ok,
      map_ok, Term.toCall, Call.text]

theorem texts_run {sequence : List Token} {stack stack' : List (Tree K)}
    (h : Term.builder.run stack sequence = .ok stack') :
    (d.writer K).run (stack.map fun u => (u.toCall literal operator function).text) sequence =
      .ok (stack'.map fun u => (u.toCall literal operator function).text) := by
  induction sequence generalizing stack with
  | nil =>
    cases h
    rfl
  | cons t ts ih =>
    rw [Machine.run_cons, bind_eq_ok] at h
    obtain ⟨between, hstep, hrun⟩ := h
    rw [Machine.run_cons, texts_step hd hstep, ok_bind, ih hrun]

/-- **The source text of a sequence is the text of the calls of its tree.** -/
theorem render_of_ofPostfix {sequence : List Token} {t : Tree K}
    (h : Term.ofPostfix sequence = .ok t) :
    d.render K sequence = .ok (t.toCall literal operator function).text :=
  Machine.replay_ok_iff.2 (texts_run hd (Machine.replay_ok_iff.1 h))

end Rendering

/-! ### The two dialects -/

section Dialects

variable (K : Type) [Literal K]

/-- A literal of plain calls is the word of its number. -/
def plainLiteral (c : K) : Call := Call.ofWord (Literal.toNumeral c).literalText

/-- A literal of a shader is made complex. -/
def glslLiteral (c : K) : Call := .unary "r2C" (plainLiteral K c)

/-- The name of an operator in plain calls. -/
def plainName : Operator → String
  | .plus => "add"
  | .minus => "sub"
  | .times => "mul"
  | .divide => "div"
  | .power => "pow"

/-- The name of an operator in a shader. -/
def glslName : Operator → String
  | .power => "powC"
  | op => plainName op

theorem text_ofWord (word : String) : (Call.ofWord word).text = word := by
  rw [Call.ofWord]
  split <;> rfl

/-- A template that is one empty slot leaves its argument as it is. -/
theorem fill_slot (argument : String) :
    Template.fill [.slot ⟨[], none, []⟩] argument = .ok argument := by
  simpa using fill_around [] [] argument

theorem spells_plain : plain.Spells (plainLiteral K) plainName Func.symbol where
  literal c := by
    rw [plainLiteral, text_ofWord]
    exact fill_slot _
  operator op := by cases op <;> rfl
  function f := fill_slot f.symbol

theorem spells_glsl : glsl.Spells (glslLiteral K) glslName (fun f => f.symbol ++ "C") where
  literal c := by
    have htext : (glslLiteral K c).text = String.ofList
        (['r', '2', 'C', '('] ++ ((Literal.toNumeral c).literalText.toList ++ [')'])) := by
      rw [← String.toList_inj]
      simp [glslLiteral, plainLiteral, Call.text, call, text_ofWord]
    rw [htext]
    exact fill_around ['r', '2', 'C', '('] [')'] _
  operator op := by cases op <;> rfl
  function f := by
    have htext : f.symbol ++ "C" = String.ofList ([] ++ (f.symbol.toList ++ ['C'])) := by
      rw [← String.toList_inj]
      simp
    rw [htext]
    exact fill_around [] ['C'] f.symbol

/-- In both dialects the source text of a sequence depends on its tree only. -/
theorem exists_render {d : Dialect} (hd : d ∈ [glsl, plain]) (t : Tree K) :
    ∃ text, ∀ sequence, Term.ofPostfix sequence = .ok t → d.render K sequence = .ok text := by
  rcases List.mem_pair.1 hd with rfl | rfl
  · exact ⟨_, fun _ h => render_of_ofPostfix (spells_glsl K) h⟩
  · exact ⟨_, fun _ h => render_of_ofPostfix (spells_plain K) h⟩

end Dialects

end Dialect

end Formula
