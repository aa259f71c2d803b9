import Formula.Fault

/-!
Logging.  An operation answers with its result and the notes it makes on the way; the notes do not
depend on any logger.  A logger has a level and handlers, and passes on the notes whose threshold
its level reaches, so a higher level only adds lines.
-/

namespace Formula

/-! ### Levels and notes -/

/-- How much a logger passes on. -/
inductive Level
  | silent | minimal | moderate | detailed | verbose
  deriving DecidableEq, Repr, Inhabited

/-- The place of a level in their order. -/
def Level.rank : Level → Nat
  | silent => 0
  | minimal => 1
  | moderate => 2
  | detailed => 3
  | verbose => 4

instance : LE Level := ⟨fun l l' => l.rank ≤ l'.rank⟩

instance (l l' : Level) : Decidable (l ≤ l') := inferInstanceAs (Decidable (l.rank ≤ l'.rank))

/-- How grave a note is. -/
inductive Severity
  | debug | info | warning | error
  deriving DecidableEq, Repr

/-- The label of a severity in a line. -/
def Severity.label : Severity → String
  | debug => "DEBUG"
  | info => "INFO"
  | warning => "WARNING"
  | error => "ERROR"

/-- Something to log. -/
structure Note where
  severity : Severity
  /-- The least level that passes the note on. -/
  threshold : Level
  text : String
  deriving DecidableEq, Repr

namespace Note

/-- An internal failure. -/
def critical (text : String) : Note := ⟨.error, .minimal, "CRITICAL: " ++ text⟩

/-- A warning. -/
def warning (text : String) : Note := ⟨.warning, .minimal, text⟩

/-- A warning about a rejected source, which is quoted unless it is empty. -/
def diagnostic (text source : String) : Note :=
  warning (if source.isEmpty then text else text ++ ": " ++ Text.quoted source)

/-- Information from a level on. -/
def info (threshold : Level) (text : String) : Note := ⟨.info, threshold, text⟩

/-- Details of the inner workings. -/
def debug (text : String) : Note := ⟨.debug, .verbose, "DEBUG: " ++ text⟩

/-- The line of a note, without its time. -/
def line (n : Note) : String := n.severity.label ++ " - " ++ n.text

end Note

/-! ### Operations with notes -/

/-- The outcome of an operation and the notes it made. -/
structure Logged (α : Type) where
  notes : List Note
  result : Except Fault α

namespace Logged

variable {α β : Type}

/-- A result without notes. -/
def ofExcept (result : Except Fault α) : Logged α := ⟨[], result⟩

/-- Makes a note. -/
def note (n : Note) : Logged Unit := ⟨[n], .ok ()⟩

/-- Fails after a note. -/
def reject (n : Note) (f : Fault) : Logged α := ⟨[n], .error f⟩

/-- Goes on with a result, if there is one, and keeps the notes of both parts in order. -/
def bind (x : Logged α) (next : α → Logged β) : Logged β :=
  match x.result with
  | .ok a => ⟨x.notes ++ (next a).notes, (next a).result⟩
  | .error f => ⟨x.notes, .error f⟩

instance : Monad Logged where
  pure a := ⟨[], .ok a⟩
  bind := bind

end Logged

/-! ### Handlers -/

/-- Where a handler writes to. -/
inductive Destination
  | console | file
  deriving DecidableEq, Repr

/-- A handler writes the lines of notes to a destination.  Handlers are told apart by the order in
which they were made. -/
structure Handler where
  destination : Destination
  number : Nat
  deriving DecidableEq, Repr

/-- The handlers that are attached.  All loggers share them, whichever is in use. -/
structure Handlers where
  attached : List Handler
  /-- How many handlers have been made. -/
  made : Nat
  deriving DecidableEq, Repr

namespace Handlers

/-- No handler has been made. -/
def initial : Handlers := ⟨[], 0⟩

variable (handlers : Handlers)

/-- Detaches all handlers. -/
def clear : Handlers := { handlers with attached := [] }

/-- The handler that is made next. -/
def next (destination : Destination) : Handler := ⟨destination, handlers.made⟩

/-- Attaches a handler, unless it is attached already. -/
def attach (handler : Handler) : Handlers :=
  if handler ∈ handlers.attached then handlers
  else { handlers with attached := handlers.attached ++ [handler] }

/-- Makes a handler and attaches it. -/
def add (destination : Destination) : Handlers :=
  attach { handlers with made := handlers.made + 1 } (handlers.next destination)

/-- Detaches a handler, if it is attached. -/
def detach (handler : Handler) : Handlers :=
  { handlers with attached := handlers.attached.erase handler }

end Handlers

/-! ### Loggers -/

/-- A logger.  Its handlers are those that all loggers share; the only one it knows for its own is
the one it has attached for the console. -/
structure Logger where
  level : Level
  /-- Whether it was made to write to a file. -/
  toFile : Bool
  console? : Option Handler
  handlers : Handlers
  deriving DecidableEq, Repr

namespace Logger

/-- Changes the level, which attaches or detaches the handler for the console. -/
def setLevel (logger : Logger) (level : Level) : Logger :=
  match level, logger.console? with
  | .silent, some handler =>
    { logger with level, console? := none, handlers := logger.handlers.detach handler }
  | .silent, none => { logger with level }
  | _, some _ => { logger with level }
  | _, none =>
    { logger with
      level
      console? := some (logger.handlers.next .console)
      handlers := logger.handlers.add .console }

/-- A new logger.  It detaches the handlers of those before it. -/
def new (handlers : Handlers) (level : Level) (file : Bool) : Logger :=
  let logger := setLevel ⟨level, file, none, handlers.clear⟩ level
  if file then { logger with handlers := logger.handlers.add .file } else logger

/-- The number of destinations. -/
def destinations (logger : Logger) : Nat := logger.handlers.attached.length

/-- Whether a note is passed on to the handlers. -/
def accepts (logger : Logger) (n : Note) : Bool := n.threshold ≤ logger.level

/-- The notes that are passed on. -/
def records (logger : Logger) (notes : List Note) : List Note := notes.filter logger.accepts

/-- The lines of the notes that are passed on. -/
def lines (logger : Logger) (notes : List Note) : List String :=
  (logger.records notes).map Note.line

/-- The lines that reach a destination: each handler that writes to it writes every line once. -/
def linesOn (logger : Logger) (destination : Destination) (notes : List Note) : List String :=
  (logger.lines notes).flatMap fun line =>
    (logger.handlers.attached.filter (·.destination = destination)).map fun _ => line

/-- The lines that reach the console. -/
def consoleLines (logger : Logger) (notes : List Note) : List String :=
  logger.linesOn .console notes

/-- The lines that reach the file. -/
def fileLines (logger : Logger) (notes : List Note) : List String := logger.linesOn .file notes

/-- The logger in use; the first use makes one. -/
def get (logger? : Option Logger) : Logger := logger?.getD (new .initial .minimal false)

end Logger

/-- The handlers that are attached with the logger in use. -/
def Handlers.inUse (logger? : Option Logger) : Handlers := logger?.elim .initial Logger.handlers

/-- What can happen to the logger in use. -/
inductive LogEvent
  /-- A new logger replaces it. -/
  | configure (level : Level) (file : Bool)
  | setLevel (level : Level)
  /-- It is asked for, which makes one if there is none. -/
  | use
  /-- Notes are made: none, or some that it is asked to pass on. -/
  | record (notes : List Note)
  /-- An engine is made that may ask for a level and for a file. -/
  | engine (level? : Option Level) (file : Bool)
  deriving DecidableEq, Repr

namespace LogEvent

/-- The logger in use after an event.  An engine that asks for nothing leaves it, and one that asks
for a file only keeps its level. -/
def after (logger? : Option Logger) : LogEvent → Option Logger
  | configure level file => some (.new (.inUse logger?) level file)
  | setLevel level =>
    match logger? with
    | some logger => some (logger.setLevel level)
    | none => some (.new .initial level false)
  | use => some (.get logger?)
  | record notes => if notes.isEmpty then logger? else some (.get logger?)
  | engine level? file =>
    if level?.isSome || file then
      match level? with
      | some level => some (.new (.inUse logger?) level file)
      | none =>
        let logger := Logger.get logger?
        some (.new logger.handlers logger.level file)
    else logger?

end LogEvent

end Formula
