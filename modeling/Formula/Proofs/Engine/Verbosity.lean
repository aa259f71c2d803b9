import Formula.Proofs.Engine.Warnings

/-!
Operations at work.  A program that logs (`Logging`) finds the logger in use, or none, and may look
at it and go on as it likes; the operations of an engine are written out as such programs, where
every place that logs asks for the level by itself (`Engine.performLogging`).  What an operation
with notes comes to under a logger (`Logged.under`) respects pure results and chains, so that each
program does what its operation with notes says (`Engine.performLogging_eq`).

Main statement: of two loggers the one with the higher level gets the same result, and the same
records with others put in; neither is changed (`Engine.performLogging_verbosity`).
-/

namespace Formula

/-! ### Programs that log -/

/-- What is handed to the handlers of a logger. -/
structure Record where
  severity : Severity
  text : String
  deriving DecidableEq, Repr

/-- What is handed on of a note. -/
def Note.record (n : Note) : Record := ⟨n.severity, n.text⟩

/-- How a program that logs ends: with the logger that is in use then, with what was handed to the
handlers on the way, and with its result. -/
structure Logging.Run (α : Type) where
  logger? : Option Logger
  records : List Record
  result : Except Fault α

/-- A program that logs: it is given the logger in use, if there is one. -/
def Logging (α : Type) : Type := Option Logger → Logging.Run α

namespace Logging

variable {α β : Type}

/-- Goes on with a result, if there is one, and with the logger that is in use by then. -/
def bind (x : Logging α) (next : α → Logging β) : Logging β := fun logger? =>
  let first := x logger?
  match first.result with
  | .ok a =>
    let second := next a first.logger?
    ⟨second.logger?, first.records ++ second.records, second.result⟩
  | .error f => ⟨first.logger?, first.records, .error f⟩

instance : Monad Logging where
  pure a := fun logger? => ⟨logger?, [], .ok a⟩
  bind := bind

/-- A result, without logging. -/
def ofExcept (result : Except Fault α) : Logging α := fun logger? => ⟨logger?, [], result⟩

/-- Fails. -/
def fail (f : Fault) : Logging α := ofExcept (.error f)

/-- The logger in use; the first use makes one. -/
def logger : Logging Logger := fun logger? =>
  let logger := Logger.get logger?
  ⟨some logger, [], .ok logger⟩

/-- Hands a record to the handlers, whatever the level. -/
def emit (record : Record) : Logging Unit := fun logger? => ⟨logger?, [record], .ok ()⟩

/-! ### Places that log -/

/-- Hands a record on if the level of the logger in use reaches a threshold. -/
def emitFrom (threshold : Level) (severity : Severity) (text : String) : Logging Unit := do
  let logger ← logger
  if threshold ≤ logger.level then emit ⟨severity, text⟩

def warning : String → Logging Unit := emitFrom .minimal .warning

def diagnostic (text source : String) : Logging Unit :=
  warning (if source.isEmpty then text else text ++ ": " ++ Text.quoted source)

def info (threshold : Level) : String → Logging Unit := emitFrom threshold .info

def debug (text : String) : Logging Unit := emitFrom .verbose .debug ("DEBUG: " ++ text)

/-- Goes on with a result; a fault is reported before it is raised. -/
def reporting (result : Except Fault α) (report : Fault → Logging Unit) : Logging α :=
  match result with
  | .ok a => return a
  | .error f => do
    report f
    fail f

/-! ### The operations at work -/

def tokenize (source : String) : Logging (List Token) :=
  reporting (Formula.tokenize source) fun f => diagnostic f.diagnosis source

def parse (source : String) : Logging (List Token) := do
  let tokens ← tokenize source
  let sequence ← ofExcept (toPostfix (completeSigns tokens))
  if isWellFormed sequence then
    debug ("parsed " ++ Text.quoted source ++ " -> " ++ Token.joinTexts sequence)
    return sequence
  else
    diagnostic "Invalid expression" source
    fail (.mismatched source)

section Numbers

variable {K : Type} [Kernel K] [Literal K]

def evaluate (sequence : List Token) (bindings : Bindings K) : Logging (Numeric K) :=
  reporting (Formula.evaluate sequence bindings) fun
    | .unbound x => warning ("Unbound variable '" ++ x ++ "'")
    | _ => return ()

def differentiate (x : String) (passes : Int) (t : Tree K) : Logging (Tree K) := do
  let derivative ← reporting ((t.differentiate x passes).mapError Gap.toFault) fun f =>
    warning ("Cannot differentiate " ++ t.toInfix ++ " by " ++ x ++ ": " ++ f.message)
  debug (Logged.derivativeText x t derivative)
  return derivative

end Numbers

end Logging

namespace Engine

/-- Reads a formula, at work. -/
def parseLogging (source : String) : Logging (List Token) := do
  let sequence ← Logging.parse source
  Logging.info .moderate ("Parsed " ++ Text.quoted source ++ " into " ++
    toString sequence.length ++ " RPN tokens")
  return sequence

variable {K : Type} [Kernel K] [Literal K] (engine : Engine)

def computeLogging (source : String) (bindings : Bindings K) : Logging (Numeric K) := do
  let sequence ← parseLogging source
  Logging.evaluate sequence bindings

def shaderLogging (K : Type) [Literal K] (source : String) : Logging Shader := do
  let sequence ← parseLogging source
  Logging.ofExcept (Shader.ofSequence K engine.reserved sequence)

def expressionLogging (source : String) : Logging (Expression K) := do
  let sequence ← Logging.parse source
  let tree ← Logging.ofExcept (Term.ofPostfix sequence)
  return ⟨tree, some sequence⟩

def differentiateLogging (x : String) (t : Tree K) : Logging (Tree K) := do
  let derivative ← Logging.differentiate x engine.passes t
  Logging.info .detailed (Logged.derivativeText x t derivative)
  return derivative

/-- Does what it is asked, at work. -/
def performLogging : Operation K → Logging (Answer K)
  | .parse source => .sequence <$> parseLogging source
  | .compute source bindings => .value <$> computeLogging source bindings
  | .shader source => .shader <$> engine.shaderLogging K source
  | .expression source => .expression <$> expressionLogging source
  | .evaluate sequence bindings => .value <$> Logging.evaluate sequence bindings
  | .freeVariables sequence => return .names (Formula.freeVariables sequence)
  | .render sequence => .text <$> Logging.ofExcept (engine.dialect.render K sequence)
  | .toTree sequence => .tree <$> Logging.ofExcept (Term.ofPostfix sequence)
  | .simplify t => return .tree (engine.simplify t)
  | .differentiate x t => .tree <$> engine.differentiateLogging x t
  | .toInfix t => return .text t.toInfix

end Engine

/-! ### Notes under a logger -/

namespace LogEvent

/-- Making notes leaves the logger in use, or the one that the first use makes. -/
theorem get_after_record (notes : List Note) (logger? : Option Logger) :
    Logger.get ((record notes).after logger?) = Logger.get logger? := by
  rw [after]
  split <;> rfl

theorem after_record_append (notes notes' : List Note) (logger? : Option Logger) :
    (record (notes ++ notes')).after logger? =
      (record notes').after ((record notes).after logger?) := by
  cases notes with
  | nil => rfl
  | cons n notes =>
    cases notes' with
    | nil =>
      rw [List.append_nil]
      rfl
    | cons n' notes' => rfl

theorem after_record_some (notes : List Note) (logger : Logger) :
    (record notes).after (some logger) = some logger := by
  rw [after]
  split <;> rfl

end LogEvent

namespace Logged

variable {α β : Type}

/-- What an operation with notes comes to under the logger in use, if there is one. -/
def under (x : Logged α) : Logging α := fun logger? =>
  ⟨(LogEvent.record x.notes).after logger?,
    ((Logger.get logger?).records x.notes).map Note.record, x.result⟩

theorem under_pure (a : α) : (pure a : Logged α).under = pure a := rfl

theorem under_ofExcept (result : Except Fault α) :
    (ofExcept result).under = Logging.ofExcept result := rfl

/-- A chain comes to the chain of what its parts come to: the first part leaves the logger in use
as it is, or makes the one that the second part would make. -/
theorem under_bind (x : Logged α) (next : α → Logged β) :
    (x >>= next).under = x.under >>= fun a => (next a).under := by
  funext logger?
  show _ = Logging.bind x.under (fun a => (next a).under) logger?
  rw [Logging.bind]
  cases hx : x.result with
  | error f =>
    rw [bind_of_error hx]
    simp only [under, hx]
  | ok a =>
    rw [bind_of_ok hx]
    simp only [under, hx, LogEvent.after_record_append, LogEvent.get_after_record,
      Logger.records, List.filter_append, List.map_append]

theorem under_map (f : α → β) (x : Logged α) : (f <$> x).under = f <$> x.under :=
  under_bind x fun a => pure (f a)

/-- A note is passed on by the place that logs it. -/
theorem under_note (n : Note) :
    (note n).under = Logging.emitFrom n.threshold n.severity n.text := by
  funext logger?
  show _ = Logging.bind Logging.logger (fun logger =>
    if n.threshold ≤ logger.level then Logging.emit n.record else pure ()) logger?
  have hunder : (note n).under logger? =
      ⟨some (Logger.get logger?), (if n.threshold ≤ (Logger.get logger?).level then [n] else []).map
        Note.record, .ok ()⟩ := by
    simp only [under, note, Logger.records, LogEvent.after, List.filter_cons, List.filter_nil,
      Logger.accepts, decide_eq_true_eq]
    rfl
  rw [hunder, Logging.bind]
  simp only [Logging.logger]
  split
  · rfl
  · rfl

theorem under_warning (text : String) :
    (note (.warning text)).under = Logging.warning text := under_note _

theorem under_diagnostic (text source : String) :
    (note (.diagnostic text source)).under = Logging.diagnostic text source := under_note _

theorem under_info (threshold : Level) (text : String) :
    (note (.info threshold text)).under = Logging.info threshold text := under_note _

theorem under_debug (text : String) : (note (.debug text)).under = Logging.debug text :=
  under_note _

theorem under_reject (n : Note) (f : Fault) :
    (reject n f : Logged α).under = (note n).under >>= fun _ => Logging.fail f :=
  under_bind (note n) fun _ => ofExcept (.error f)

end Logged

/-! ### The programs do what is noted -/

namespace Logging

variable {α β : Type}

/-- Nothing comes after a reported failure. -/
theorem reject_bind (report : Logging Unit) (f : Fault) (next : α → Logging β) :
    (report >>= fun _ => fail f) >>= next = report >>= fun _ => fail f := by
  funext logger?
  show bind (bind report fun _ => fail f) next logger? = bind report (fun _ => fail f) logger?
  simp only [bind]
  cases (report logger?).result with
  | ok a => rfl
  | error g => rfl

theorem parse_of_toPostfix {source : String} {tokens sequence : List Token}
    (h : Formula.tokenize source = .ok tokens)
    (hout : toPostfix (completeSigns tokens) = .ok sequence) :
    parse source = if isWellFormed sequence
      then debug ("parsed " ++ Text.quoted source ++ " -> " ++ Token.joinTexts sequence) >>=
        fun _ => pure sequence
      else diagnostic "Invalid expression" source >>= fun _ => fail (.mismatched source) := by
  rw [parse, tokenize, h]
  show (ofExcept (toPostfix (completeSigns tokens)) >>= _) = _
  rw [hout]
  rfl

theorem parse_eq (source : String) : parse source = (Logged.parse source).under := by
  rw [Logged.parse]
  cases htokens : Formula.tokenize source with
  | error f =>
    have hparse : Formula.parse source = .error f := by
      rw [Formula.parse, htokens]
      rfl
    rw [hparse, Logged.under_reject, Logged.under_diagnostic, parse, tokenize, htokens]
    exact reject_bind _ _ _
  | ok tokens =>
    obtain ⟨sequence, hout⟩ := exists_toPostfix htokens
    rw [Formula.parse_of_toPostfix htokens hout, parse_of_toPostfix htokens hout]
    by_cases hwell : isWellFormed sequence = true
    · rw [if_pos hwell, if_pos hwell, ← Logged.under_debug]
      exact (Logged.under_bind _ fun _ => pure sequence).symm
    · rw [if_neg hwell, if_neg hwell, ← Logged.under_diagnostic]
      exact (Logged.under_reject _ _).symm

section Numbers

variable {K : Type} [Kernel K] [Literal K]

theorem evaluate_eq (sequence : List Token) (bindings : Bindings K) :
    evaluate sequence bindings = (Logged.evaluate sequence bindings).under := by
  rw [evaluate, Logged.evaluate]
  cases Formula.evaluate sequence bindings with
  | ok z => rfl
  | error f =>
    cases f with
    | unbound x =>
      rw [Logged.under_reject, Logged.under_warning]
      rfl
    | _ => rfl

theorem differentiate_eq (x : String) (passes : Int) (t : Tree K) :
    differentiate x passes t = (Logged.differentiate x passes t).under := by
  rw [differentiate, Logged.differentiate]
  cases t.differentiate x passes with
  | ok derivative =>
    rw [Logged.under_bind, Logged.under_debug]
    rfl
  | error gap =>
    rw [Logged.under_reject, Logged.under_warning]
    exact reject_bind _ _ _

end Numbers

end Logging

namespace Engine

theorem parseLogging_eq (source : String) : parseLogging source = (parse source).under := by
  rw [parseLogging, parse, Logging.parse_eq, Logged.under_bind]
  congr 1
  funext sequence
  rw [Logged.under_bind, Logged.under_info]
  rfl

variable {K : Type} [Kernel K] [Literal K] (engine : Engine)

theorem computeLogging_eq (source : String) (bindings : Bindings K) :
    computeLogging source bindings = (compute source bindings).under := by
  rw [computeLogging, compute, parseLogging_eq, Logged.under_bind]
  congr 1
  funext sequence
  exact Logging.evaluate_eq sequence bindings

omit [Kernel K] in
theorem shaderLogging_eq (source : String) :
    engine.shaderLogging K source = (engine.shader K source).under := by
  rw [shaderLogging, shader, parseLogging_eq, Logged.under_bind]
  rfl

omit [Kernel K] in
theorem expressionLogging_eq (source : String) :
    (expressionLogging source : Logging (Expression K)) = (expression source).under := by
  rw [expressionLogging, expression, Logging.parse_eq, Logged.under_bind]
  congr 1
  funext sequence
  rw [Logged.under_bind]
  rfl

theorem differentiateLogging_eq (x : String) (t : Tree K) :
    engine.differentiateLogging x t = (engine.differentiate x t).under := by
  rw [differentiateLogging, differentiate, Logging.differentiate_eq, Logged.under_bind]
  congr 1
  funext derivative
  rw [Logged.under_bind, Logged.under_info]
  rfl

/-- **An operation at work does what the operation with notes says**, under any logger. -/
theorem performLogging_eq (operation : Operation K) :
    engine.performLogging operation = (engine.perform operation).under := by
  cases operation with
  | parse source => rw [performLogging, perform, Logged.under_map, parseLogging_eq]
  | compute source bindings =>
    rw [performLogging, perform, Logged.under_map, computeLogging_eq]
  | shader source => rw [performLogging, perform, Logged.under_map, shaderLogging_eq]
  | expression source => rw [performLogging, perform, Logged.under_map, expressionLogging_eq]
  | evaluate sequence bindings =>
    rw [performLogging, perform, Logged.under_map, Logging.evaluate_eq, evaluate]
  | freeVariables sequence => exact (Logged.under_pure _).symm
  | render sequence =>
    rw [performLogging, perform, Logged.under_map, render, Logged.under_ofExcept]
  | toTree sequence =>
    rw [performLogging, perform, Logged.under_map, toTree, Logged.under_ofExcept]
  | simplify t => exact (Logged.under_pure _).symm
  | differentiate x t => rw [performLogging, perform, Logged.under_map, differentiateLogging_eq]
  | toInfix t => exact (Logged.under_pure _).symm

end Engine

/-! ### Two loggers -/

theorem Logger.accepts_mono {quiet loud : Logger} (h : quiet.level ≤ loud.level) {n : Note}
    (hn : quiet.accepts n = true) : loud.accepts n = true := by
  have hquiet : n.threshold.rank ≤ quiet.level.rank := of_decide_eq_true hn
  exact decide_eq_true (show n.threshold.rank ≤ loud.level.rank from hquiet.trans h)

theorem Logger.records_sublist {quiet loud : Logger} (h : quiet.level ≤ loud.level)
    (notes : List Note) : (quiet.records notes).Sublist (loud.records notes) :=
  List.monotone_filter_right notes fun _ => accepts_mono h

namespace Engine

variable {K : Type} [Kernel K] [Literal K] (engine : Engine)

/-- **The level of the logger never changes a result and only adds records**: under two loggers an
operation has the same result or the same fault, it leaves each of them as it is, its handlers
included, and what the quieter one hands on is handed on in the same order by the louder one. -/
theorem performLogging_verbosity (operation : Operation K) {quiet loud : Logger}
    (h : quiet.level ≤ loud.level) :
    (engine.performLogging operation (some quiet)).result =
        (engine.performLogging operation (some loud)).result ∧
      (engine.performLogging operation (some quiet)).logger? = some quiet ∧
      (engine.performLogging operation (some loud)).logger? = some loud ∧
      (engine.performLogging operation (some quiet)).records.Sublist
        (engine.performLogging operation (some loud)).records := by
  rw [performLogging_eq]
  refine ⟨rfl, LogEvent.after_record_some _ quiet, LogEvent.after_record_some _ loud, ?_⟩
  exact (Logger.records_sublist h _).map Note.record

/-- A logger that reports rejected formulas only, and to a file as well. -/
def quietSample : Logger := .new .initial .minimal true

/-- A logger that reports everything. -/
def loudSample : Logger := .new .initial .verbose false

theorem verbosity_unboundSample : quietSample.level ≤ loudSample.level ∧
    (default.performLogging unboundSample (some quietSample)).result =
      (default.performLogging unboundSample (some loudSample)).result ∧
    (default.performLogging unboundSample (some quietSample)).records.Sublist
      (default.performLogging unboundSample (some loudSample)).records := by
  have hlevel : quietSample.level ≤ loudSample.level := by decide
  obtain ⟨hresult, -, -, hrecords⟩ := performLogging_verbosity default unboundSample hlevel
  exact ⟨hlevel, hresult, hrecords⟩

end Engine

end Formula
