import Formula.Engine
import Formula.Proofs.Grammar.Usable
import Formula.Proofs.Tree.Doubles

/-!
What the operations of an engine report.  An operation reports its failure (`Logged.Reports`) if its
last note is a warning and no other is, and if there is none where it has a result.  A chain of
operations reports its failure if every part of it does, since what comes before a failure has had a
result.

Main statement: a logger that is not silent passes on one warning when an operation fails, and none
when it has a result; a silent one passes on nothing (`Engine.records_of_perform`).
-/

namespace Formula

/-- The sorts of failure that formulas and their use have; the others are wrong calls. -/
def FaultKind.isOwn : FaultKind → Bool
  | lexical | grammatical | evaluation | derivation => true
  | _ => false

/-- A note that is no warning and that is not for silent loggers. -/
def Note.IsPlain (n : Note) : Prop := n.threshold ≠ .silent ∧ n.severity ≠ .warning

theorem Note.isPlain_debug (text : String) : (debug text).IsPlain :=
  ⟨Level.noConfusion, Severity.noConfusion⟩

theorem Note.isPlain_info {threshold : Level} (h : threshold ≠ .silent) (text : String) :
    (info threshold text).IsPlain :=
  ⟨h, Severity.noConfusion⟩

/-! ### Operations that report their failure -/

namespace Logged

variable {α β : Type}

theorem bind_of_ok {x : Logged α} {a : α} (h : x.result = .ok a) (next : α → Logged β) :
    x >>= next = ⟨x.notes ++ (next a).notes, (next a).result⟩ := by
  show x.bind next = _
  rw [bind, h]

theorem bind_of_error {x : Logged α} {f : Fault} (h : x.result = .error f) (next : α → Logged β) :
    x >>= next = ⟨x.notes, .error f⟩ := by
  show x.bind next = _
  rw [bind, h]

/-- A failure is noted by one warning, behind all other notes; a result goes without. -/
structure Reports (x : Logged α) : Prop where
  audible : ∀ n ∈ x.notes, n.threshold ≠ .silent
  quiet : ∀ a, x.result = .ok a → ∀ n ∈ x.notes, n.severity ≠ .warning
  warns : ∀ f, x.result = .error f → f.kind.isOwn = true ∧ ∃ before w, x.notes = before ++ [w] ∧
    (∀ n ∈ before, n.severity ≠ .warning) ∧ w.severity = .warning ∧ w.threshold = .minimal

theorem reports_ok (a : α) : Reports ⟨[], .ok a⟩ := ⟨nofun, nofun, nofun⟩

theorem reports_ofExcept {result : Except Fault α} (h : ∃ a, result = .ok a) :
    (ofExcept result).Reports := by
  obtain ⟨a, rfl⟩ := h
  exact reports_ok a

theorem reports_note {n : Note} (h : n.IsPlain) (a : α) :
    (do note n; return a : Logged α).Reports := by
  have hn : ∀ m ∈ [n], m.IsPlain := List.forall_mem_singleton.2 h
  exact ⟨fun m hm => (hn m hm).1, fun _ _ m hm => (hn m hm).2, nofun⟩

theorem reports_reject {n : Note} {f : Fault} (hkind : f.kind.isOwn = true)
    (hseverity : n.severity = .warning) (hthreshold : n.threshold = .minimal) :
    (reject n f : Logged α).Reports where
  audible := by
    intro m hm
    rw [List.mem_singleton.1 hm, hthreshold]
    decide
  quiet := nofun
  warns := by
    rintro _ ⟨⟩
    exact ⟨hkind, [], n, rfl, nofun, hseverity, hthreshold⟩

/-- The first part has had a result where the second one fails. -/
theorem Reports.bind {x : Logged α} {next : α → Logged β} (h : x.Reports)
    (hnext : ∀ a, x.result = .ok a → (next a).Reports) : (x >>= next).Reports := by
  cases hx : x.result with
  | error f =>
    rw [bind_of_error hx]
    refine ⟨h.audible, nofun, ?_⟩
    rintro _ ⟨⟩
    exact h.warns f hx
  | ok a =>
    rw [bind_of_ok hx]
    obtain ⟨haudible, hquiet, hwarns⟩ := hnext a hx
    refine ⟨?_, ?_, ?_⟩
    · exact List.forall_mem_append.2 ⟨h.audible, haudible⟩
    · exact fun b hb => List.forall_mem_append.2 ⟨h.quiet a hx, hquiet b hb⟩
    · intro f hf
      obtain ⟨hkind, before, w, hnotes, hbefore, hw⟩ := hwarns f hf
      refine ⟨hkind, x.notes ++ before, w, ?_, ?_, hw⟩
      · rw [List.append_assoc]
        exact congrArg (x.notes ++ ·) hnotes
      · exact List.forall_mem_append.2 ⟨h.quiet a hx, hbefore⟩

theorem Reports.map {x : Logged α} (h : x.Reports) (f : α → β) : (f <$> x).Reports :=
  h.bind fun a _ => reports_ok (f a)

/-- A logger that is not silent passes on the warning of a failure, behind other records. -/
theorem Reports.records {x : Logged α} (h : x.Reports) (logger : Logger) :
    (.minimal ≤ logger.level →
      (∀ a, x.result = .ok a → ∀ n ∈ logger.records x.notes, n.severity ≠ .warning) ∧
      ∀ f, x.result = .error f → f.kind.isOwn = true ∧
        ∃ before w, logger.records x.notes = before ++ [w] ∧ w.severity = .warning ∧
          ∀ n ∈ before, n.severity ≠ .warning) ∧
    (logger.level = .silent → logger.records x.notes = []) := by
  refine ⟨fun hlevel => ⟨?_, ?_⟩, ?_⟩
  · exact fun a ha n hn => h.quiet a ha n (List.mem_filter.1 hn).1
  · intro f hf
    obtain ⟨hkind, before, w, hnotes, hbefore, hseverity, hthreshold⟩ := h.warns f hf
    have hw : logger.accepts w = true := by
      rw [Logger.accepts, hthreshold]
      exact decide_eq_true hlevel
    refine ⟨hkind, before.filter logger.accepts, w, ?_, hseverity, ?_⟩
    · rw [Logger.records, hnotes, List.filter_append, List.filter_cons_of_pos hw, List.filter_nil]
    · exact fun n hn => hbefore n (List.mem_filter.1 hn).1
  · intro hlevel
    refine List.filter_eq_nil_iff.2 fun n hn haccepts => h.audible n hn ?_
    rw [Logger.accepts, hlevel] at haccepts
    generalize n.threshold = threshold at haccepts
    cases threshold <;> first | rfl | cases haccepts

/-! ### The parts of the operations -/

theorem reports_parse (source : String) : (parse source).Reports := by
  unfold parse
  split
  · exact reports_note (Note.isPlain_debug _) _
  · rename_i f hf
    have hown : f.kind.isOwn = true := by
      rcases kind_of_parse hf with hkind | hkind <;> rw [hkind] <;> rfl
    exact reports_reject hown rfl rfl

theorem parse_of_result {source : String} {sequence : List Token}
    (h : (parse source).result = .ok sequence) : Formula.parse source = .ok sequence := by
  unfold parse at h
  split at h
  · rename_i hparse
    exact hparse.trans h
  · cases h

section Numbers

variable {K : Type} [Kernel K] [Literal K]

/-- Evaluating what was read of a formula fails for a variable without a value only. -/
theorem reports_evaluate {source : String} {sequence : List Token} {bindings : Bindings K}
    {env : Environment K} (h : Formula.parse source = .ok sequence)
    (henv : bindings.toEnvironment = .ok env) : (evaluate sequence bindings).Reports := by
  unfold evaluate
  rcases evaluate_of_parse h henv with ⟨-, z, hz⟩ | ⟨x, -, -, hfault⟩
  · rw [hz]
    exact reports_ok z
  · rw [hfault]
    exact reports_reject rfl rfl rfl

theorem reports_differentiate (x : String) (passes : Int) (t : Tree K) :
    (differentiate x passes t).Reports := by
  unfold differentiate
  split
  · exact reports_note (Note.isPlain_debug _) _
  · rename_i gap _
    have hown : gap.toFault.kind.isOwn = true := by cases gap <;> rfl
    exact reports_reject hown rfl rfl

end Numbers

end Logged

/-! ### The operations -/

namespace Engine

variable {K : Type}

/-- What an engine can be asked. -/
inductive Operation (K : Type)
  | parse (source : String)
  | compute (source : String) (bindings : Bindings K)
  | shader (source : String)
  | expression (source : String)
  | evaluate (sequence : List Token) (bindings : Bindings K)
  | freeVariables (sequence : List Token)
  | render (sequence : List Token)
  | toTree (sequence : List Token)
  | simplify (t : Tree K)
  | differentiate (x : String) (t : Tree K)
  | toInfix (t : Tree K)

/-- What an engine answers. -/
inductive Answer (K : Type)
  | sequence (tokens : List Token)
  | value (z : Numeric K)
  | names (xs : List String)
  | text (s : String)
  | shader (s : Shader)
  | tree (t : Tree K)
  | expression (e : Expression K)

variable [Kernel K] [Literal K]

/-- Sequences have been read by an engine, and the values of bindings can be converted. -/
def Operation.IsProper : Operation K → Prop
  | compute _ bindings => ∃ env, bindings.toEnvironment = .ok env
  | evaluate sequence bindings =>
    (∃ source, (Engine.parse source).result = .ok sequence) ∧
      ∃ env, bindings.toEnvironment = .ok env
  | freeVariables sequence | render sequence | toTree sequence =>
    ∃ source, (Engine.parse source).result = .ok sequence
  | _ => True

/-- Does what it is asked. -/
def perform (engine : Engine) : Operation K → Logged (Answer K)
  | .parse source => .sequence <$> parse source
  | .compute source bindings => .value <$> compute source bindings
  | .shader source => .shader <$> engine.shader K source
  | .expression source => .expression <$> expression source
  | .evaluate sequence bindings => .value <$> evaluate sequence bindings
  | .freeVariables sequence => pure (.names (Formula.freeVariables sequence))
  | .render sequence => .text <$> engine.render K sequence
  | .toTree sequence => .tree <$> toTree sequence
  | .simplify t => pure (.tree (engine.simplify t))
  | .differentiate x t => .tree <$> engine.differentiate x t
  | .toInfix t => pure (.text t.toInfix)

theorem reports_parse (source : String) : (parse source).Reports :=
  (Logged.reports_parse source).bind fun sequence _ =>
    Logged.reports_note (Note.isPlain_info Level.noConfusion _) sequence

theorem parse_of_result {source : String} {sequence : List Token}
    (h : (parse source).result = .ok sequence) : Formula.parse source = .ok sequence := by
  cases hparse : (Logged.parse source).result with
  | error f =>
    rw [parse, Logged.bind_of_error hparse] at h
    cases h
  | ok read =>
    rw [parse, Logged.bind_of_ok hparse] at h
    cases h
    exact Logged.parse_of_result hparse

theorem reports_perform (engine : Engine) (hdialect : engine.dialect ∈ [Dialect.glsl, .plain])
    {operation : Operation K} (h : operation.IsProper) : (engine.perform operation).Reports := by
  cases operation with
  | parse source => exact (reports_parse source).map _
  | compute source bindings =>
    obtain ⟨env, henv⟩ := h
    refine Logged.Reports.map ((reports_parse source).bind fun sequence hsequence => ?_) _
    exact Logged.reports_evaluate (parse_of_result hsequence) henv
  | shader source =>
    refine Logged.Reports.map ((reports_parse source).bind fun sequence hsequence => ?_) _
    exact Logged.reports_ofExcept ((usable_of_parse K (parse_of_result hsequence)).shader _)
  | expression source =>
    refine Logged.Reports.map ((Logged.reports_parse source).bind fun sequence hsequence => ?_) _
    have husable := usable_of_parse K (Logged.parse_of_result hsequence)
    exact (Logged.reports_ofExcept husable.tree).bind fun _ _ => Logged.reports_ok _
  | evaluate sequence bindings =>
    obtain ⟨⟨source, hsource⟩, env, henv⟩ := h
    exact (Logged.reports_evaluate (parse_of_result hsource) henv).map _
  | freeVariables sequence => exact Logged.reports_ok _
  | render sequence =>
    obtain ⟨source, hsource⟩ := h
    have husable := usable_of_parse K (parse_of_result hsource)
    exact (Logged.reports_ofExcept (husable.text _ hdialect)).map _
  | toTree sequence =>
    obtain ⟨source, hsource⟩ := h
    have husable := usable_of_parse K (parse_of_result hsource)
    exact (Logged.reports_ofExcept husable.tree).map _
  | simplify t => exact Logged.reports_ok _
  | differentiate x t =>
    refine Logged.Reports.map ((Logged.reports_differentiate x _ t).bind fun du _ => ?_) _
    exact Logged.reports_note (Note.isPlain_info Level.noConfusion _) du
  | toInfix t => exact Logged.reports_ok _

/-- **A logger that is not silent passes on exactly one warning if an operation fails, behind all
other records of it, and none if it has a result; a silent logger passes on nothing.**  The logger
is the one in use, or the one that the first use makes. -/
theorem records_of_perform (engine : Engine) (hdialect : engine.dialect ∈ [Dialect.glsl, .plain])
    (operation : Operation K) (h : operation.IsProper) (logger? : Option Logger) :
    (.minimal ≤ (Logger.get logger?).level →
      (∀ answer, (engine.perform operation).result = .ok answer →
        ∀ n ∈ (Logger.get logger?).records (engine.perform operation).notes,
          n.severity ≠ .warning) ∧
      ∀ f, (engine.perform operation).result = .error f → f.kind.isOwn = true ∧
        ∃ before w, (Logger.get logger?).records (engine.perform operation).notes =
            before ++ [w] ∧
          w.severity = .warning ∧ ∀ n ∈ before, n.severity ≠ .warning) ∧
    ((Logger.get logger?).level = .silent →
      (Logger.get logger?).records (engine.perform operation).notes = []) :=
  (reports_perform engine hdialect h).records (Logger.get logger?)

/-- What is computed of a formula with a variable that has no value. -/
def unboundSample : Operation (Doubles .least) := .compute "sin(y)" []

theorem records_of_unboundSample :
    (default.perform unboundSample).result = .error (.unbound "y") ∧
    ∃ before w, (Logger.get none).records (default.perform unboundSample).notes = before ++ [w] ∧
      w.severity = .warning ∧ ∀ n ∈ before, n.severity ≠ .warning := by
  have hresult : (default.perform unboundSample).result = .error (.unbound "y") := by
    have hparse : Formula.parse "sin(y)" = .ok [⟨.identifier, "y"⟩, ⟨.function, "sin"⟩] := by cbv
    simp only [unboundSample, perform, compute, parse, Logged.parse, hparse]
    rfl
  have h := records_of_perform default List.mem_cons_self unboundSample ⟨[], rfl⟩ none
  have hlevel : Level.minimal ≤ (Logger.get none).level := by decide
  exact ⟨hresult, ((h.1 hlevel).2 _ hresult).2⟩

end Engine

end Formula
