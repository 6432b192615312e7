import ApiMock.Failure
/-!
# Log — messages of a run

What a run reports beside its result. A message has a level and belongs
to the part of the program that reports it. Messages are kept in order
and are not lost when a later step fails.
-/

namespace ApiMock

/-- How serious a message is. -/
inductive Level where
  | debug
  | warning
  deriving DecidableEq, Repr

/-- The word for a level. -/
def Level.label : Level → String
  | debug => "DEBUG"
  | warning => "WARNING"

/-- The part of the program a message comes from. -/
inductive Reporter where
  | document
  | types
  | config
  | seed
  | blueprint
  | writer
  deriving DecidableEq, Repr

/-- The name a part of the program reports under. -/
def Reporter.label : Reporter → String
  | document => "swagger_localdb.loader"
  | types => "swagger_localdb.type_resolver"
  | config => "swagger_localdb.config"
  | seed => "swagger_localdb.seed"
  | blueprint => "swagger_localdb.context_builder"
  | writer => "swagger_localdb.codegen"

/-- A message of a run. -/
structure LogEntry where
  level : Level
  reporter : Reporter
  message : String
  deriving DecidableEq, Repr

/-- The message on a line of its own. -/
def LogEntry.line (e : LogEntry) : String :=
  s!"{e.level.label} {e.reporter.label}: {e.message}"

/-- A computation that reports messages. They stay when it fails. -/
abbrev Logged (α : Type) := ExceptT Failure (StateM (List LogEntry)) α

/-- Reports a message. -/
def report (level : Level) (reporter : Reporter) (message : String) : Logged Unit :=
  modify (· ++ [⟨level, reporter, message⟩])

/-- The outcome of a computation and its messages. -/
def Logged.outcome {α : Type} (x : Logged α) : Except Failure α × List LogEntry :=
  x.run.run []

end ApiMock
