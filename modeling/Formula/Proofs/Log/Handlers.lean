import Formula.Engine
import Mathlib.Data.List.Nodup

/-!
The handlers of the logger in use.  Loggers share their handlers, and each of them knows only the
one it has attached for the console; so what is attached is followed from event to event.  A logger
is tidy (`Logger.Tidy`) if its own handler and the one for its file are all that is attached.

Main statement: after any events the logger in use has just the handlers that its level and the last
making of a logger call for, so that a line reaches each destination once
(`LogEvent.destinations_of_run`).
-/

namespace Formula

/-! ### Making handlers -/

namespace Handlers

/-- The handler made next is none of those that are attached. -/
def Fresh (handlers : Handlers) : Prop := ∀ h ∈ handlers.attached, h.number < handlers.made

theorem fresh_clear (handlers : Handlers) : handlers.clear.Fresh := nofun

section

variable {handlers : Handlers} (h : handlers.Fresh)

include h

theorem Fresh.add_eq (destination : Destination) : handlers.add destination =
    ⟨handlers.attached ++ [handlers.next destination], handlers.made + 1⟩ := by
  have hnew : handlers.next destination ∉ handlers.attached :=
    fun hmem => Nat.lt_irrefl _ (h _ hmem)
  rw [add, attach, if_neg hnew]

theorem Fresh.add (destination : Destination) : (handlers.add destination).Fresh := by
  intro handler hmem
  rw [h.add_eq] at hmem ⊢
  rcases List.mem_append.1 hmem with hold | hnew
  · exact Nat.lt_succ_of_lt (h handler hold)
  · cases List.mem_singleton.1 hnew
    exact Nat.lt_succ_self _

theorem Fresh.detach (handler : Handler) : (handlers.detach handler).Fresh :=
  fun other hmem => h other (List.mem_of_mem_erase hmem)

end

end Handlers

/-! ### Tidy loggers -/

namespace Logger

/-- What is attached is the logger's own handler for the console, if it has one, and the given one
for a file, if there is one. -/
structure Owns (logger : Logger) (file? : Option Handler) : Prop where
  fresh : logger.handlers.Fresh
  attached : logger.handlers.attached.Perm (logger.console?.toList ++ file?.toList)
  console : ∀ h ∈ logger.console?, h.destination = .console
  file : ∀ h ∈ file?, h.destination = .file

/-- What is attached is a handler for the console unless the logger is silent, and one for a file if
the logger was made to write to one. -/
structure Tidy (logger : Logger) : Prop where
  owns : ∃ file?, logger.Owns file? ∧ file?.isSome = logger.toFile
  level : logger.console?.isSome ↔ logger.level ≠ .silent

section

variable (logger : Logger) (handlers : Handlers) (level : Level) (file : Bool)

@[simp] theorem level_setLevel : (logger.setLevel level).level = level := by
  unfold setLevel
  split <;> rfl

@[simp] theorem toFile_setLevel : (logger.setLevel level).toFile = logger.toFile := by
  unfold setLevel
  split <;> rfl

theorem isSome_console_setLevel :
    (logger.setLevel level).console?.isSome ↔ level ≠ .silent := by
  unfold setLevel
  split
  · exact ⟨nofun, fun hne => absurd rfl hne⟩
  · rename_i hown
    rw [hown]
    exact ⟨nofun, fun hne => absurd rfl hne⟩
  · rename_i hne hown
    rw [hown]
    exact ⟨fun _ => hne, fun _ => rfl⟩
  · rename_i hne hown
    exact ⟨fun _ => hne, fun _ => rfl⟩

@[simp] theorem level_new : (new handlers level file).level = level := by
  cases file <;> exact level_setLevel _ level

@[simp] theorem toFile_new : (new handlers level file).toFile = file := by
  cases file <;> exact toFile_setLevel _ level

theorem isSome_console_new : (new handlers level file).console?.isSome ↔ level ≠ .silent := by
  cases file <;> exact isSome_console_setLevel _ level

end

/-- Changing the level attaches or detaches the logger's own handler, and no other. -/
theorem Owns.setLevel {logger : Logger} {file? : Option Handler} (h : logger.Owns file?)
    (level : Level) : (logger.setLevel level).Owns file? := by
  obtain ⟨hfresh, hattached, hconsole, hfile⟩ := h
  unfold Logger.setLevel
  split
  · rename_i handler hown
    rw [hown] at hattached
    have hdetached := hattached.erase handler
    rw [Option.toList_some, List.singleton_append, List.erase_cons_head] at hdetached
    exact ⟨hfresh.detach handler, hdetached, nofun, hfile⟩
  · exact ⟨hfresh, hattached, hconsole, hfile⟩
  · exact ⟨hfresh, hattached, hconsole, hfile⟩
  · rename_i hown
    rw [hown] at hattached
    refine ⟨hfresh.add .console, ?_, ?_, hfile⟩
    · rw [hfresh.add_eq]
      exact List.perm_append_comm.trans (hattached.cons _)
    · rintro _ ⟨⟩
      rfl

theorem Tidy.setLevel {logger : Logger} (h : logger.Tidy) (level : Level) :
    (logger.setLevel level).Tidy := by
  obtain ⟨file?, howns, hfile⟩ := h.owns
  refine ⟨⟨file?, howns.setLevel level, ?_⟩, ?_⟩
  · rw [toFile_setLevel, hfile]
  · rw [level_setLevel, isSome_console_setLevel]

theorem Owns.add_file {logger : Logger} (h : logger.Owns none) :
    Owns { logger with handlers := logger.handlers.add .file }
      (some (logger.handlers.next .file)) := by
  obtain ⟨hfresh, hattached, hconsole, -⟩ := h
  rw [Option.toList_none, List.append_nil] at hattached
  refine ⟨hfresh.add .file, ?_, hconsole, ?_⟩
  · rw [hfresh.add_eq]
    exact hattached.append_right _
  · rintro _ ⟨⟩
    rfl

/-- A new logger is tidy, whatever was attached before. -/
theorem tidy_new (handlers : Handlers) (level : Level) (file : Bool) :
    (new handlers level file).Tidy := by
  have hbare : Owns ⟨level, file, none, handlers.clear⟩ none :=
    ⟨handlers.fresh_clear, .refl _, nofun, nofun⟩
  have howns := hbare.setLevel level
  refine ⟨?_, by rw [level_new, isSome_console_new]⟩
  rw [toFile_new]
  cases file with
  | false => exact ⟨none, howns, rfl⟩
  | true => exact ⟨_, howns.add_file, rfl⟩

theorem tidy_get {logger? : Option Logger} (h : ∀ logger ∈ logger?, logger.Tidy) :
    (get logger?).Tidy := by
  cases logger? with
  | none => exact tidy_new .initial .minimal false
  | some logger => exact h logger rfl

end Logger

/-! ### Destinations -/

/-- The destinations that a level calls for, for a logger that writes to a file or not. -/
def Level.destinations (level : Level) (file : Bool) : List Destination :=
  (if level = .silent then [] else [.console]) ++ (if file then [.file] else [])

theorem Level.nodup_destinations (level : Level) (file : Bool) :
    (level.destinations file).Nodup := by
  unfold destinations
  split <;> split <;> decide

namespace Logger

theorem Tidy.destinations {logger : Logger} (h : logger.Tidy) :
    (logger.handlers.attached.map Handler.destination).Perm
      (logger.level.destinations logger.toFile) := by
  obtain ⟨⟨file?, howns, hfile⟩, hlevel⟩ := h
  have hmap := howns.attached.map Handler.destination
  rw [List.map_append] at hmap
  have hconsole : logger.console?.toList.map Handler.destination =
      if logger.level = .silent then [] else [.console] := by
    cases hown : logger.console? with
    | none =>
      rw [hown] at hlevel
      rw [if_pos (Decidable.byContradiction fun hne => nomatch hlevel.2 hne)]
      rfl
    | some handler =>
      rw [hown] at hlevel
      rw [if_neg (hlevel.1 rfl), ← howns.console handler hown]
      rfl
  have hfiles : file?.toList.map Handler.destination = if logger.toFile then [.file] else [] := by
    rw [← hfile]
    cases file? with
    | none => rfl
    | some handler =>
      rw [Option.isSome_some, if_pos rfl, ← howns.file handler rfl]
      rfl
  rwa [hconsole, hfiles] at hmap

/-- A line is written once for each handler. -/
theorem linesOn_eq (logger : Logger) (destination : Destination) (notes : List Note) :
    logger.linesOn destination notes = (logger.lines notes).flatMap
      (List.replicate ((logger.handlers.attached.map Handler.destination).count destination)) := by
  unfold linesOn
  congr 1
  funext line
  rw [List.map_const', List.count, List.countP_map, List.countP_eq_length_filter]
  rfl

theorem Tidy.linesOn {logger : Logger} (h : logger.Tidy) (destination : Destination)
    (notes : List Note) : logger.linesOn destination notes =
      if destination ∈ logger.level.destinations logger.toFile then logger.lines notes else [] := by
  rw [linesOn_eq, h.destinations.count_eq]
  split
  · rename_i hmem
    rw [List.count_eq_one_of_mem (Level.nodup_destinations _ _) hmem]
    exact List.flatMap_singleton' _
  · rename_i hmem
    rw [List.count_eq_zero_of_not_mem hmem]
    exact List.flatMap_eq_nil_iff.2 fun _ _ => rfl

end Logger

/-! ### Runs -/

namespace LogEvent

/-- The logger in use after some events, one after the other. -/
def run (logger? : Option Logger) (events : List LogEvent) : Option Logger :=
  events.foldl after logger?

/-- What the logger that an event makes is asked for: whether it is to write to a file.  Whether one
is made may depend on whether there is one. -/
def asks? (isThere : Bool) : LogEvent → Option Bool
  | configure _ file => some file
  | setLevel _ | use => if isThere then none else some false
  | record notes => if isThere || notes.isEmpty then none else some false
  | engine level? file => if level?.isSome || file then some file else none

/-- What the last logger is asked for that was made up to the end of an event. -/
def askedAfter (asked? : Option Bool) (event : LogEvent) : Option Bool :=
  (event.asks? asked?.isSome).or asked?

/-- What the last logger is asked for that some events make. -/
def lastAsked? (events : List LogEvent) : Option Bool := events.foldl askedAfter none

theorem tidy_after {logger? : Option Logger} (h : ∀ logger ∈ logger?, logger.Tidy)
    (event : LogEvent) : ∀ logger ∈ event.after logger?, logger.Tidy := by
  cases event with
  | configure level file =>
    rintro _ ⟨⟩
    exact Logger.tidy_new _ level file
  | setLevel level =>
    cases logger? with
    | none =>
      rintro _ ⟨⟩
      exact Logger.tidy_new _ level false
    | some logger =>
      rintro _ ⟨⟩
      exact (h logger rfl).setLevel level
  | use =>
    rintro _ ⟨⟩
    exact Logger.tidy_get h
  | record notes =>
    rw [after]
    split
    · exact h
    · rintro _ ⟨⟩
      exact Logger.tidy_get h
  | engine level? file =>
    simp only [after]
    split
    · cases level? with
      | none =>
        rintro _ ⟨⟩
        exact Logger.tidy_new _ _ file
      | some level =>
        rintro _ ⟨⟩
        exact Logger.tidy_new _ level file
    · exact h

theorem toFile_after (logger? : Option Logger) (event : LogEvent) :
    (event.after logger?).map Logger.toFile = askedAfter (logger?.map Logger.toFile) event := by
  rw [askedAfter, Option.isSome_map]
  cases event with
  | configure level file => simp [after, asks?]
  | setLevel level => cases logger? <;> simp [after, asks?]
  | use => cases logger? <;> simp [after, asks?, Logger.get]
  | record notes => cases logger? <;> cases notes <;> simp [after, asks?, Logger.get]
  | engine level? file => cases level? <;> cases file <;> simp [after, asks?]

theorem tidy_run {logger? : Option Logger} (h : ∀ logger ∈ logger?, logger.Tidy)
    (events : List LogEvent) : ∀ logger ∈ run logger? events, logger.Tidy := by
  induction events generalizing logger? with
  | nil => exact h
  | cons event events ih => exact ih (tidy_after h event)

theorem toFile_run (logger? : Option Logger) (events : List LogEvent) :
    (run logger? events).map Logger.toFile =
      events.foldl askedAfter (logger?.map Logger.toFile) := by
  induction events generalizing logger? with
  | nil => rfl
  | cons event events ih => rw [List.foldl_cons, ← toFile_after, ← ih, run, List.foldl_cons, run]

/-- **After any events the handlers of the logger in use are one for the console, unless its level
is silent, and one for a file, if the last logger to be made was asked for one; so each line is
written once to each of these.**  An engine that asks for nothing changes nothing, and one that asks
for a file only keeps the level. -/
theorem destinations_of_run (events : List LogEvent) :
    (run none events).isSome = (lastAsked? events).isSome ∧
    (∀ logger, run none events = some logger →
      (logger.handlers.attached.map Handler.destination).Perm
        (logger.level.destinations ((lastAsked? events).getD false)) ∧
      ∀ destination notes, logger.linesOn destination notes =
        if destination ∈ logger.level.destinations ((lastAsked? events).getD false)
        then logger.lines notes else []) ∧
    ∀ engine : Engine, engine.level? = none →
      (engine.toFile = false → engine.logEvent.after (run none events) = run none events) ∧
      (engine.toFile = true → (engine.logEvent.after (run none events)).map Logger.level =
        some (Logger.get (run none events)).level) := by
  have hasked : (run none events).map Logger.toFile = lastAsked? events := toFile_run none events
  refine ⟨?_, ?_, ?_⟩
  · rw [← hasked, Option.isSome_map]
  · intro logger hlogger
    have hnone : ∀ logger ∈ (none : Option Logger), logger.Tidy := nofun
    have htidy := tidy_run hnone events logger hlogger
    rw [← hasked, hlogger]
    exact ⟨htidy.destinations, htidy.linesOn⟩
  · intro engine hlevel
    rw [Engine.logEvent, hlevel]
    refine ⟨?_, ?_⟩
    · intro hfile
      rw [hfile]
      rfl
    · intro hfile
      rw [hfile]
      exact congrArg some (Logger.level_new _ _ _)

/-- The level goes down and up between two engines, the second of which asks for a file only. -/
def toggles : List LogEvent :=
  [.use, .engine (some .moderate) true, .setLevel .silent, .setLevel .verbose, .setLevel .detailed,
    .engine none true, .setLevel .silent, .record [.warning "unbound"], .setLevel .minimal]

theorem destinations_of_toggles : ∃ logger, run none toggles = some logger ∧
    (logger.handlers.attached.map Handler.destination).Perm [.console, .file] ∧
    logger.linesOn .file [.warning "unbound"] = ["WARNING - unbound"] := by
  obtain ⟨-, h, -⟩ := destinations_of_run toggles
  obtain ⟨hdestinations, hlines⟩ := h _ rfl
  exact ⟨_, rfl, hdestinations, hlines .file _⟩

end LogEvent

end Formula
