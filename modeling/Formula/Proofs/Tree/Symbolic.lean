import Formula.Proofs.Result
import Formula.Tree.Draft

/-!
Trees in a computer algebra system.  The system is any one that answers calls of constructors, for
constants, symbols, sums, products, powers and functions, with an expression or with a refusal;
nested calls as text are what the system makes that only records its calls (`build_recorder`).

Main statements: a tree is built exactly if the system accepts every call that is made for it
(`Term.exists_build_iff`), and as no lookup fails, a failure is exactly that of a refused call
(`Draft.build_ofTree_eq_error_iff`).
-/

namespace Formula

/-- A call of a constructor of a computer algebra system. -/
inductive AlgebraCall (E K : Type)
  | integer (n : Int)
  | float (c : K)
  | symbol (name : String)
  | add (a b : E)
  | mul (a b : E)
  | pow (a b : E)
  | function (f : Func) (arg : E)

/-- The call for a constant: whole constants are integers. -/
def AlgebraCall.ofConstant {E K : Type} [Kernel K] (c : K) : AlgebraCall E K :=
  match Kernel.integer? c with
  | some n => .integer n
  | none => .float c

/-- A computer algebra system that makes expressions, or refuses to. -/
structure AlgebraSystem (ε E K : Type) where
  /-- Minus one, as an operand of a product or a power. -/
  negOne : E
  make : AlgebraCall E K → Except ε E

namespace AlgebraSystem

variable {ε E K : Type} (system : AlgebraSystem ε E K)

/-! ### Operators -/

/-- A difference is a sum with a multiple by minus one, a quotient a product with an inverse. -/
def operator : Operator → E → E → Except ε E
  | .plus, a, b => system.make (.add a b)
  | .minus, a, b => do
    let negated ← system.make (.mul system.negOne b)
    system.make (.add a negated)
  | .times, a, b => system.make (.mul a b)
  | .divide, a, b => do
    let inverse ← system.make (.pow b system.negOne)
    system.make (.mul a inverse)
  | .power, a, b => system.make (.pow a b)

/-- The calls that are made for an operator on two expressions, a second one if the first is
accepted. -/
inductive AskedFor (a b : E) : Operator → AlgebraCall E K → Prop
  | plus : AskedFor a b .plus (.add a b)
  | negated : AskedFor a b .minus (.mul system.negOne b)
  | minus {negated : E} (h : system.make (.mul system.negOne b) = .ok negated) :
    AskedFor a b .minus (.add a negated)
  | times : AskedFor a b .times (.mul a b)
  | inverse : AskedFor a b .divide (.pow b system.negOne)
  | divide {inverse : E} (h : system.make (.pow b system.negOne) = .ok inverse) :
    AskedFor a b .divide (.mul a inverse)
  | power : AskedFor a b .power (.pow a b)

variable {system}

theorem operator_eq_error_iff {op : Operator} {a b : E} {refusal : ε} :
    system.operator op a b = .error refusal ↔
      ∃ call, system.AskedFor a b op call ∧ system.make call = .error refusal := by
  constructor
  · intro h
    cases op with
    | plus => exact ⟨_, .plus, h⟩
    | times => exact ⟨_, .times, h⟩
    | power => exact ⟨_, .power, h⟩
    | minus =>
      rcases bind_eq_error.1 h with h | ⟨negated, hnegated, h⟩
      · exact ⟨_, .negated, h⟩
      · exact ⟨_, .minus hnegated, h⟩
    | divide =>
      rcases bind_eq_error.1 h with h | ⟨inverse, hinverse, h⟩
      · exact ⟨_, .inverse, h⟩
      · exact ⟨_, .divide hinverse, h⟩
  · rintro ⟨call, hasked, h⟩
    cases hasked with
    | plus | times | power => exact h
    | negated | inverse => exact bind_eq_error.2 (.inl h)
    | minus haccepted | divide haccepted => exact bind_eq_error.2 (.inr ⟨_, haccepted, h⟩)

/-! ### Systems -/

/-- The system that only records its calls. -/
def recorder (K : Type) [Literal K] : AlgebraSystem Empty String K where
  negOne := "-1"
  make
    | .integer n => .ok ("Integer(" ++ toString n ++ ")")
    | .float c => .ok ("Float(" ++ (Literal.toNumeral c).plainText ++ ")")
    | .symbol x => .ok (variableCall x)
    | .add a b => .ok (constructorCall "Add" a b)
    | .mul a b => .ok (constructorCall "Mul" a b)
    | .pow a b => .ok (constructorCall "Pow" a b)
    | .function f a => .ok (f.constructorCall a)

theorem make_recorder_ofConstant [Kernel K] [Literal K] (c : K) :
    (recorder K).make (.ofConstant c) = .ok (constantCall c) := by
  rw [AlgebraCall.ofConstant, constantCall]
  cases Kernel.integer? c <;> rfl

theorem operator_recorder [Literal K] (op : Operator) (a b : String) :
    (recorder K).operator op a b = .ok (op.constructorCall a b) := by
  cases op <;> rfl

/-- What is known of an expression: its value, if it is a rational number or the imaginary unit. -/
inductive Known
  | rational (q : Rat)
  | imaginaryUnit
  | unknown
  deriving DecidableEq, Repr

/-- A power of rational numbers, as far as it is known: an inverse, or the root of minus one. -/
def Known.power (p q : Rat) : Known :=
  if q = -1 ∧ p ≠ 0 then .rational p⁻¹
  else if q = 1 / 2 ∧ p = -1 then .imaginaryUnit
  else .unknown

/-- The system that reckons with what it knows.  Steps are for real numbers: it refuses a step of
the imaginary unit. -/
def reckoner (K : Type) : AlgebraSystem Known Known K where
  negOne := .rational (-1)
  make
    | .integer n => .ok (.rational n)
    | .add (.rational p) (.rational q) => .ok (.rational (p + q))
    | .mul (.rational p) (.rational q) => .ok (.rational (p * q))
    | .pow (.rational p) (.rational q) => .ok (.power p q)
    | .function .step .imaginaryUnit => .error .imaginaryUnit
    | _ => .ok .unknown

theorem eq_step_of_reckoner_refuses {call : AlgebraCall Known K} {refusal : Known}
    (h : (reckoner K).make call = .error refusal) : ∃ a, call = .function .step a := by
  simp only [reckoner] at h
  split at h
  case h_5 => exact ⟨_, rfl⟩
  all_goals cases h

end AlgebraSystem

/-! ### Trees -/

section Build

variable {ε E K : Type} [Kernel K]

/-- A tree in a computer algebra system. -/
def Term.build (system : AlgebraSystem ε E K) : Tree K → Except ε E
  | constant c => system.make (.ofConstant c)
  | var x => system.make (.symbol x)
  | binary op left right => do
    let a ← left.build system
    let b ← right.build system
    system.operator op a b
  | unary f arg => do
    let a ← arg.build system
    system.make (.function f a)

/-- The calls that are made for a tree, each of them if those before it are accepted. -/
inductive AlgebraSystem.Asked (system : AlgebraSystem ε E K) : Tree K → AlgebraCall E K → Prop
  | constant (c : K) : Asked system (.constant c) (.ofConstant c)
  | var (x : String) : Asked system (.var x) (.symbol x)
  | left {op : Operator} {left right : Tree K} {call : AlgebraCall E K}
    (h : Asked system left call) : Asked system (.binary op left right) call
  | right {op : Operator} {left right : Tree K} {a : E} {call : AlgebraCall E K}
    (hleft : left.build system = .ok a) (h : Asked system right call) :
    Asked system (.binary op left right) call
  | operator {op : Operator} {left right : Tree K} {a b : E} {call : AlgebraCall E K}
    (hleft : left.build system = .ok a) (hright : right.build system = .ok b)
    (h : system.AskedFor a b op call) : Asked system (.binary op left right) call
  | arg {f : Func} {arg : Tree K} {call : AlgebraCall E K} (h : Asked system arg call) :
    Asked system (.unary f arg) call
  | function {f : Func} {arg : Tree K} {a : E} (harg : arg.build system = .ok a) :
    Asked system (.unary f arg) (.function f a)

namespace Term

open AlgebraSystem (Asked operator_eq_error_iff)

variable {system : AlgebraSystem ε E K} {t : Tree K}

/-- A refused call ends the building. -/
theorem build_of_refused {call : AlgebraCall E K} {refusal : ε} (hasked : system.Asked t call)
    (hrefused : system.make call = .error refusal) : t.build system = .error refusal := by
  induction hasked with
  | constant c => exact hrefused
  | var x => exact hrefused
  | left _ ih => exact bind_eq_error.2 (.inl (ih hrefused))
  | right hleft _ ih =>
    exact bind_eq_error.2 (.inr ⟨_, hleft, bind_eq_error.2 (.inl (ih hrefused))⟩)
  | operator hleft hright h =>
    have hoperator := operator_eq_error_iff.2 ⟨_, h, hrefused⟩
    exact bind_eq_error.2 (.inr ⟨_, hleft, bind_eq_error.2 (.inr ⟨_, hright, hoperator⟩)⟩)
  | arg _ ih => exact bind_eq_error.2 (.inl (ih hrefused))
  | function harg => exact bind_eq_error.2 (.inr ⟨_, harg, hrefused⟩)

/-- Nothing but a refused call ends the building. -/
theorem exists_refused_of_build {refusal : ε} (h : t.build system = .error refusal) :
    ∃ call, system.Asked t call ∧ system.make call = .error refusal := by
  induction t with
  | constant c => exact ⟨_, .constant c, h⟩
  | var x => exact ⟨_, .var x, h⟩
  | binary op left right ihl ihr =>
    rcases bind_eq_error.1 h with h | ⟨a, hleft, h⟩
    · obtain ⟨call, hasked, hrefused⟩ := ihl h
      exact ⟨call, .left hasked, hrefused⟩
    rcases bind_eq_error.1 h with h | ⟨b, hright, h⟩
    · obtain ⟨call, hasked, hrefused⟩ := ihr h
      exact ⟨call, .right hleft hasked, hrefused⟩
    obtain ⟨call, hasked, hrefused⟩ := operator_eq_error_iff.1 h
    exact ⟨call, .operator hleft hright hasked, hrefused⟩
  | unary f arg ih =>
    rcases bind_eq_error.1 h with h | ⟨a, harg, h⟩
    · obtain ⟨call, hasked, hrefused⟩ := ih h
      exact ⟨call, .arg hasked, hrefused⟩
    · exact ⟨_, .function harg, h⟩

theorem build_eq_error_iff {refusal : ε} : t.build system = .error refusal ↔
    ∃ call, system.Asked t call ∧ system.make call = .error refusal :=
  ⟨exists_refused_of_build, fun ⟨_, hasked, hrefused⟩ => build_of_refused hasked hrefused⟩

/-- **A tree is built exactly if every call that is made for it is accepted.** -/
theorem exists_build_iff : (∃ a, t.build system = .ok a) ↔
    ∀ call, system.Asked t call → ∃ a, system.make call = .ok a := by
  constructor
  · rintro ⟨a, h⟩ call hasked
    cases hcall : system.make call with
    | ok b => exact ⟨b, rfl⟩
    | error refusal => cases h.symm.trans (build_of_refused hasked hcall)
  · intro h
    cases hbuild : t.build system with
    | ok a => exact ⟨a, rfl⟩
    | error refusal =>
      obtain ⟨call, hasked, hrefused⟩ := exists_refused_of_build hbuild
      obtain ⟨a, haccepted⟩ := h call hasked
      cases haccepted.symm.trans hrefused

/-- A function is called for a tree only if it occurs there. -/
theorem contains_of_asked {f : Func} {a : E} (h : system.Asked t (.function f a)) :
    t.contains f.symbol = true := by
  generalize hcall : AlgebraCall.function f a = call at h
  induction h with
  | constant c =>
    rw [AlgebraCall.ofConstant] at hcall
    split at hcall <;> cases hcall
  | var x => cases hcall
  | left _ ih | right _ _ ih => simp [contains, ih hcall]
  | operator _ _ h =>
    cases hcall
    cases h
  | arg _ ih => simp [contains, ih hcall]
  | function =>
    cases hcall
    simp [contains, Symbol.text]

/-- A system that refuses nothing but values of a function makes every tree without it. -/
theorem exists_build_of_not_contains {f : Func}
    (hsystem : ∀ call refusal, system.make call = .error refusal → ∃ a, call = .function f a)
    (ht : t.contains f.symbol = false) : ∃ a, t.build system = .ok a := by
  rw [exists_build_iff]
  intro call hasked
  cases hcall : system.make call with
  | ok a => exact ⟨a, rfl⟩
  | error refusal =>
    obtain ⟨a, rfl⟩ := hsystem call refusal hcall
    rw [contains_of_asked hasked] at ht
    cases ht

end Term

end Build

/-! ### Drafts -/

namespace Draft

variable {ε E K : Type} [Kernel K]

/-- A draft in a computer algebra system.  A failure is one of the draft, or one of the system. -/
def build (system : AlgebraSystem ε E K) : Draft K → Except (Fault ⊕ ε) E
  | .constant (.number c) => (system.make (.ofConstant c)).mapError .inr
  | .constant (.foreign _) => .error (.inl (.malformedTree .foreign))
  | .var x => (system.make (.symbol x)).mapError .inr
  | .binary symbol left right => do
    let a ← build system left
    let b ← build system right
    (system.operator ((Operator.ofSymbol? symbol).getD .power) a b).mapError .inr
  | .unary symbol arg => do
    let f ← (lookUp Func.ofSymbol? symbol).mapError .inl
    let a ← build system arg
    (system.make (.function f a)).mapError .inr

/-- Nested calls as text are what the recorder makes. -/
theorem build_recorder [Literal K] (d : Draft K) :
    d.build (.recorder K) = d.toConstructors.mapError .inl := by
  induction d with
  | constant leaf =>
    cases leaf with
    | number c => rw [build, AlgebraSystem.make_recorder_ofConstant]; rfl
    | foreign text => rfl
  | var x => rfl
  | binary symbol left right ihl ihr =>
    simp only [build, toConstructors, ihl, ihr, AlgebraSystem.operator_recorder]
    cases toConstructors left <;> cases toConstructors right <;> rfl
  | unary symbol arg ih =>
    simp only [build, toConstructors, ih]
    cases lookUp Func.ofSymbol? symbol with
    | error f => rfl
    | ok f =>
      cases toConstructors arg with
      | error g => rfl
      | ok text => rfl

/-- No symbol of a tree is looked up in vain. -/
theorem build_ofTree (system : AlgebraSystem ε E K) (t : Tree K) :
    (ofTree t).build system = (t.build system).mapError .inr := by
  induction t with
  | constant c => rfl
  | var x => rfl
  | binary op left right ihl ihr =>
    simp only [ofTree, build, Term.build, ihl, ihr, Operator.ofSymbol?_symbol]
    cases left.build system with
    | error e => rfl
    | ok a => cases right.build system <;> rfl
  | unary f arg ih =>
    simp only [ofTree, build, Term.build, ih, lookUp_func]
    cases arg.build system <;> rfl

theorem build_ofTree_eq_error_iff {system : AlgebraSystem ε E K} {t : Tree K} {g : Fault ⊕ ε} :
    (ofTree t).build system = .error g ↔ ∃ call refusal, system.Asked t call ∧
      system.make call = .error refusal ∧ g = .inr refusal := by
  rw [build_ofTree, mapError_eq_error]
  constructor
  · rintro ⟨refusal, h, rfl⟩
    obtain ⟨call, hasked, hrefused⟩ := Term.build_eq_error_iff.1 h
    exact ⟨call, refusal, hasked, hrefused, rfl⟩
  · rintro ⟨call, refusal, hasked, hrefused, rfl⟩
    exact ⟨refusal, Term.build_eq_error_iff.2 ⟨call, hasked, hrefused⟩, rfl⟩

end Draft

end Formula
