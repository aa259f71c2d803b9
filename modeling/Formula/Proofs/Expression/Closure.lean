import Formula.Proofs.Expression.Shortcut
import Formula.Proofs.Grammar.Usable
import Formula.Proofs.Tree.Gaps
import Formula.Proofs.Tree.Recovery
import Formula.Proofs.Tree.Symbolic

/-!
Expressions are closed under their operations.  The steps from one expression to the next work on
nodes, look every symbol up and have their result validated (`Expression.Step.apply`); on an
expression whose sequence, if it has one, is that of its tree, they do what the operations on trees
do, and make such an expression again (`Expression.Coherent.apply`).

Main statement: whatever steps lead to it, an expression can be asked everything, and the only step
from it that can fail is to differentiate (`Expression.usable_of_run`).  What it is in a computer
algebra system depends on the calls that the system accepts, and one may be refused
(`Expression.refused_rootDraft`).
-/

namespace Formula

open Term

/-! ### Values of trees -/

section Values

variable {K : Type} [Kernel K] {env : Environment K}

theorem Term.evaluate_ok_iff {t : Tree K} :
    (∃ z, t.evaluate env = .ok z) ↔ ∀ x, Occurs x t → ∃ z, env.lookup x = some z := by
  induction t with
  | constant c => simp [evaluate]
  | var x =>
    simp only [evaluate, valueOf, occurs_var, forall_eq]
    cases env.lookup x <;> simp
  | binary op left right ihl ihr =>
    simp only [occurs_binary, or_imp, forall_and, ← ihl, ← ihr, evaluate, bind_eq_ok]
    simp
  | unary f arg ih =>
    simp only [occurs_unary, ← ih, evaluate, bind_eq_ok]
    simp

theorem Term.exists_evaluate_error_iff {t : Tree K} :
    (∃ f, t.evaluate env = .error f) ↔ ∃ x, Occurs x t ∧ env.lookup x = none := by
  have hok : (∃ f, t.evaluate env = .error f) ↔ ¬ ∃ z, t.evaluate env = .ok z := by
    cases t.evaluate env <;> simp
  rw [hok, evaluate_ok_iff]
  simp only [not_forall, exists_prop, ← Option.isSome_iff_exists, Option.not_isSome_iff_eq_none]

end Values

namespace Expression

/-! ### Steps -/

/-- What makes one expression of another. -/
inductive Step
  | simplify (passes : Int)
  | differentiate (x : String) (passes : Int)
  | copy
  deriving DecidableEq, Repr

section Steps

variable {K : Type} [Constant K] [Literal K] {e e' : Expression K}

/-- Takes a step on the nodes of an expression; what it makes is validated. -/
def Step.apply (e : Expression K) : Step → Except Fault (Expression K)
  | simplify passes => do
    let t ← (Draft.ofTree e.tree).checkByReducing
    ofDraft (.ofTree (t.simplify passes)) none
  | differentiate x passes => do
    let t ← (Draft.ofTree e.tree).checkByReducing
    let derivative ← (t.differentiate x passes).mapError Gap.toFault
    ofDraft (.ofTree derivative) none
  | copy => do
    let t ← (Draft.ofTree e.tree).check
    ofDraft (.ofTree t) e.sequence?

/-- Takes steps one after the other. -/
def run (e : Expression K) (steps : List Step) : Except Fault (Expression K) :=
  steps.foldlM Step.apply e

omit [Constant K] [Literal K] in
theorem ofDraft_ofTree (t : Tree K) (sequence? : Option (List Token)) :
    ofDraft (.ofTree t) sequence? = .ok ⟨t, sequence?⟩ := by
  rw [ofDraft, Draft.validate, Draft.check_ofTree]
  rfl

/-! No symbol of a tree is refused, so that the steps are the operations on trees. -/

theorem apply_simplify (passes : Int) :
    Step.apply e (.simplify passes) = .ok (e.simplify passes) := by
  rw [Step.apply, Draft.checkByReducing_ofTree, ok_bind, ofDraft_ofTree, simplify]

theorem apply_differentiate (x : String) (passes : Int) :
    Step.apply e (.differentiate x passes) = (e.differentiate x passes).mapError Gap.toFault := by
  rw [Step.apply, Draft.checkByReducing_ofTree, ok_bind, differentiate]
  cases e.tree.differentiate x passes with
  | error gap => rfl
  | ok derivative => exact ofDraft_ofTree derivative none

theorem apply_copy : Step.apply e .copy = .ok e := by
  rw [Step.apply, Draft.check_ofTree, ok_bind, ofDraft_ofTree]

/-- A step fails for want of a derivative only. -/
theorem exists_of_apply_error {step : Step} {f : Fault} (h : step.apply e = .error f) :
    f.kind = .derivation ∧ ∃ x passes, step = .differentiate x passes := by
  cases step with
  | simplify passes => cases (apply_simplify passes).symm.trans h
  | copy => cases apply_copy.symm.trans h
  | differentiate x passes =>
    rw [apply_differentiate, mapError_eq_error] at h
    obtain ⟨gap, -, rfl⟩ := h
    refine ⟨?_, x, passes, rfl⟩
    cases gap <;> rfl

end Steps

/-! ### What expressions answer -/

variable {lib : Library} {e e' : Expression (Doubles lib)}

/-- An expression that has a sequence has that of its tree, from a formula. -/
def Coherent (e : Expression (Doubles lib)) : Prop :=
  ∀ sequence, e.sequence? = some sequence →
    (∃ source, parse source = .ok sequence) ∧ ofPostfix sequence = .ok e.tree

/-- An expression can be asked everything. -/
structure Usable (e : Expression (Doubles lib)) : Prop where
  valid : (Draft.ofTree e.tree).isValid = true
  text : ∃ text, (Draft.ofTree e.tree).toInfix = .ok text
  /-- A computer algebra system makes an expression of it if it accepts every call made for it. -/
  built : ∀ {ε E : Type} (system : AlgebraSystem ε E (Doubles lib)),
    (∃ a, (Draft.ofTree e.tree).build system = .ok a) ↔
      ∀ call, system.Asked e.tree call → ∃ a, system.make call = .ok a
  /-- Otherwise the failure is that of the call that it refuses. -/
  refused : ∀ {ε E : Type} (system : AlgebraSystem ε E (Doubles lib)) (g : Fault ⊕ ε),
    (Draft.ofTree e.tree).build system = .error g ↔ ∃ call refusal,
      system.Asked e.tree call ∧ system.make call = .error refusal ∧ g = .inr refusal
  /-- A system that refuses values of one function only makes an expression of it without that. -/
  built_without : ∀ {ε E : Type} (system : AlgebraSystem ε E (Doubles lib)) (f : Func),
    (∀ call refusal, system.make call = .error refusal → ∃ a, call = .function f a) →
      e.tree.contains f.symbol = false → ∃ a, (Draft.ofTree e.tree).build system = .ok a
  recorded : ∃ text, (Draft.ofTree e.tree).toConstructors = .ok text
  freeVariables : ∀ x, x ∈ e.freeVariables ↔ Occurs x e.tree
  /-- Evaluation fails exactly if some variable has no value. -/
  fails_iff : ∀ (bindings : Bindings (Doubles lib)) (env : Environment (Doubles lib)),
    bindings.toEnvironment = .ok env → ((∃ f, e.evaluate bindings = .error f) ↔
      ∃ x, Occurs x e.tree ∧ env.lookup x = none)
  fault : ∀ (bindings : Bindings (Doubles lib)) (env : Environment (Doubles lib)) (f : Fault),
    bindings.toEnvironment = .ok env → e.evaluate bindings = .error f → f.kind = .evaluation
  /-- The nodes, with their symbols looked up, have the same value or fault. -/
  nodes : ∀ (bindings : Bindings (Doubles lib)) (env : Environment (Doubles lib)),
    bindings.toEnvironment = .ok env →
      (Draft.ofTree e.tree).evaluate env.toBindings = Quantity.value <$> e.evaluate bindings
  /-- There is source text in both dialects if the variables are names. -/
  source : (∀ x, Occurs x e.tree → isName x = true) →
    ∀ dialect ∈ [Dialect.glsl, Dialect.plain], ∃ text, e.render dialect = .ok text

theorem Coherent.evaluate_eq (h : e.Coherent) {bindings : Bindings (Doubles lib)}
    {env : Environment (Doubles lib)} (henv : bindings.toEnvironment = .ok env) :
    e.evaluate bindings = e.tree.evaluate env := by
  rw [evaluate]
  split
  · rename_i sequence hsequence
    rw [Formula.evaluate, henv, ok_bind, replay_evaluator (h sequence hsequence).2]
  · rw [henv, ok_bind]

theorem Coherent.mem_freeVariables_iff (h : e.Coherent) {x : String} :
    x ∈ e.freeVariables ↔ Occurs x e.tree := by
  rw [freeVariables]
  split
  · rename_i sequence hsequence
    exact mem_freeVariables_iff_occurs (readScalar_text Layout.plain) (h sequence hsequence).2
  · exact mem_variableNames

theorem Coherent.exists_render (h : e.Coherent) (hnames : ∀ x, Occurs x e.tree → isName x = true)
    {dialect : Dialect} (hdialect : dialect ∈ [Dialect.glsl, Dialect.plain]) :
    ∃ text, e.render dialect = .ok text := by
  rw [render]
  split
  · rename_i sequence hsequence
    obtain ⟨⟨source, hsource⟩, -⟩ := h sequence hsequence
    exact (usable_of_parse (Doubles lib) hsource).text dialect hdialect
  · obtain ⟨sequence, hparse, -⟩ := exists_respelt e.tree (hasNames_iff.2 hnames)
    rw [toInfix, hparse, ok_bind]
    exact (usable_of_parse (Doubles lib) hparse).text dialect hdialect

theorem Coherent.usable (h : e.Coherent) : e.Usable where
  valid := Draft.isValid_iff.2 ⟨e.tree, rfl⟩
  text := ⟨_, Draft.toInfix_ofTree e.tree⟩
  built _ := by simp only [Draft.build_ofTree, mapError_eq_ok, exists_build_iff]
  refused _ _ := Draft.build_ofTree_eq_error_iff
  built_without _ _ hsystem hwithout := by
    simpa only [Draft.build_ofTree, mapError_eq_ok] using
      exists_build_of_not_contains hsystem hwithout
  recorded := ⟨_, Draft.toConstructors_ofTree e.tree⟩
  freeVariables _ := h.mem_freeVariables_iff
  fails_iff bindings env henv := by rw [h.evaluate_eq henv, exists_evaluate_error_iff]
  fault bindings env f henv hf := by
    rw [h.evaluate_eq henv] at hf
    obtain ⟨x, rfl, -⟩ := unbound_of_evaluate hf
    rfl
  nodes bindings env henv := by rw [h.evaluate_eq henv, Draft.evaluate_ofTree]
  source hnames _ hdialect := h.exists_render hnames hdialect

/-! ### Runs -/

/-- A step leaves an expression with the sequence of its tree, if it has one, and brings in no
variables. -/
theorem Coherent.apply (h : e.Coherent) {step : Step} (hstep : step.apply e = .ok e') :
    e'.Coherent ∧ ∀ x, Occurs x e'.tree → Occurs x e.tree := by
  cases step with
  | simplify passes =>
    cases (apply_simplify passes).symm.trans hstep
    exact ⟨nofun, fun x hx => occurs_of_simplify hx⟩
  | copy =>
    cases apply_copy.symm.trans hstep
    exact ⟨h, fun x hx => hx⟩
  | differentiate x passes =>
    rw [apply_differentiate, mapError_eq_ok, differentiate, bind_eq_ok] at hstep
    obtain ⟨derivative, hderivative, ⟨⟩⟩ := hstep
    have hderives := derives_of_differentiate hderivative
    exact ⟨nofun, fun y hy => occurs_of_simplify (hderives.occurs hy)⟩

theorem Coherent.run (h : e.Coherent) {steps : List Step} (hrun : e.run steps = .ok e') :
    e'.Coherent ∧ ∀ x, Occurs x e'.tree → Occurs x e.tree := by
  induction steps generalizing e with
  | nil =>
    cases hrun
    exact ⟨h, fun x hx => hx⟩
  | cons step steps ih =>
    rw [Expression.run, List.foldlM_cons, bind_eq_ok] at hrun
    obtain ⟨between, hstep, hrest⟩ := hrun
    obtain ⟨hbetween, hoccurs⟩ := h.apply hstep
    obtain ⟨hcoherent, hrun⟩ := ih hbetween hrest
    exact ⟨hcoherent, fun x hx => hoccurs x (hrun x hx)⟩

/-- What steps make of an expression can be asked everything, has no new variables, and gives
another expression at each step but a derivative that is missing. -/
def Closed (e : Expression (Doubles lib)) : Prop :=
  ∀ steps e', e.run steps = .ok e' → e'.Usable ∧ (∀ x, Occurs x e'.tree → Occurs x e.tree) ∧
    ∀ (step : Step) f, step.apply e' = .error f →
      f.kind = .derivation ∧ ∃ x passes, step = .differentiate x passes

theorem Coherent.closed (h : e.Coherent) : e.Closed := by
  intro steps e' hrun
  obtain ⟨hcoherent, hoccurs⟩ := h.run hrun
  exact ⟨hcoherent.usable, hoccurs, fun step f hstep => exists_of_apply_error hstep⟩

/-- **Expressions are closed under their operations**: every valid draft is the tree of an
expression, and whatever steps are taken from there, or from the expression of a formula, what they
make can be asked everything and is valid again. -/
theorem usable_of_run (lib : Library) :
    (∀ d : Draft (Doubles lib), d.isValid = true → ∃ e : Expression (Doubles lib),
      ofDraft d none = .ok e ∧ Draft.ofTree e.tree = d ∧ e.Closed) ∧
    ∀ source (e : Expression (Doubles lib)), ofString source = .ok e → e.Closed := by
  constructor
  · intro d hvalid
    obtain ⟨t, rfl⟩ := Draft.isValid_iff.1 hvalid
    have hcoherent : Coherent (⟨t, none⟩ : Expression (Doubles lib)) := nofun
    exact ⟨_, ofDraft_ofTree t none, rfl, hcoherent.closed⟩
  · intro source e h
    simp only [ofString, bind_eq_ok] at h
    obtain ⟨sequence, hparse, t, ht, h⟩ := h
    cases h
    have hcoherent : Coherent (⟨t, some sequence⟩ : Expression (Doubles lib)) := by
      rintro _ ⟨⟩
      exact ⟨⟨source, hparse⟩, ht⟩
    exact hcoherent.closed

/-- The nodes of `sin(x)`. -/
def sineDraft : Draft (Doubles .least) := .unary "sin" (.var "x")

theorem usable_of_sineSteps : sineDraft.isValid = true ∧
    ∃ e e' : Expression (Doubles .least), ofDraft sineDraft none = .ok e ∧
      e.run [.copy, .differentiate "x" 2, .simplify 1] = .ok e' ∧ e'.Usable ∧
      ∃ a, (Draft.ofTree e.tree).build (.reckoner _) = .ok a := by
  have hvalid : sineDraft.isValid = true := by decide
  obtain ⟨e, he, -, hclosed⟩ := (usable_of_run .least).1 sineDraft hvalid
  cases he
  have hfailure : failure? ((unary .sin (var "x") : Tree (Doubles .least)).differentiate "x" 2) =
      none := by
    rw [failure?_differentiate]
    rfl
  obtain ⟨slope, hslope⟩ :
      ∃ r, (unary .sin (var "x") : Tree (Doubles .least)).differentiate "x" 2 = .ok r := by
    cases h : (unary .sin (var "x") : Tree (Doubles .least)).differentiate "x" 2 with
    | error gap =>
      rw [h] at hfailure
      cases hfailure
    | ok r => exact ⟨r, rfl⟩
  have hrun : run ⟨unary .sin (var "x"), none⟩ [.copy, .differentiate "x" 2, .simplify 1] =
      .ok ⟨slope.simplify 1, none⟩ := by
    simp only [run, List.foldlM_cons, List.foldlM_nil, apply_copy, apply_differentiate,
      differentiate, hslope, ok_bind, Except.mapError, pure_eq_ok, apply_simplify]
    rfl
  have hbuilt := (hclosed [] _ rfl).1.built_without (.reckoner _) .step
    (fun _ _ => AlgebraSystem.eq_step_of_reckoner_refuses) (by decide)
  exact ⟨hvalid, _, _, rfl, hrun, (hclosed _ _ hrun).1, hbuilt⟩

/-- The nodes of `step((0-1)^(1/2))`. -/
def rootDraft : Draft (Doubles .least) :=
  .unary "step" (.binary "^"
    (.binary "-" (.constant (.number (0.0 : Float))) (.constant (.number (1.0 : Float))))
    (.binary "/" (.constant (.number (1.0 : Float))) (.constant (.number (2.0 : Float)))))

/-- A valid tree need not be built: this one asks for a step of the imaginary unit. -/
theorem refused_rootDraft : rootDraft.isValid = true ∧ ∃ e : Expression (Doubles .least),
    ofDraft rootDraft none = .ok e ∧ e.run [] = .ok e ∧
      (Draft.ofTree e.tree).build (.reckoner _) = .error (.inr .imaginaryUnit) := by
  refine ⟨by decide, ⟨_, none⟩, rfl, rfl, ?_⟩
  decide +kernel

end Expression

end Formula
