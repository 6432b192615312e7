import ApiMock.Cli.Help
import ApiMock.Cli.Request
import ApiMock.Config.Load
import ApiMock.Emit.Write
import ApiMock.OpenApi.Load
import ApiMock.Seed.Load
/-!
# Cli — a run of the program

What a call of the program prints, changes and ends with. The settings
are loaded first, then the seed records, then the specification; files
are written only when all of it went well. A specification that is
refused ends the run with its message, any other failure as it is.
-/

namespace ApiMock

namespace Cli

/-- The state of a run: files and messages, and the lines printed. -/
structure Session where
  workspace : Workspace
  printed : List String

/-- A step of a run. What it did stays when it fails. -/
abbrev Running (α : Type) := ExceptT Failure (StateM Session) α

/-- Prints a line. -/
def print (line : String) : Running Unit :=
  modify fun s => { s with printed := s.printed ++ [line] }

/-- A step that may change files. -/
def filing {α : Type} (x : Filing α) : Running α := do
  let (r, w) := x.run.run (← get).workspace
  modify fun s => { s with workspace := w }
  (r : Except Failure α)

/-- A step that loads from files. -/
def loading {α : Type} (x : FileTree → Logged α) : Running α := do
  filing (Filing.ofLogged (x (← get).workspace.files))

/-- The settings that options state. -/
def Options.settings (o : Options) : List (String × Data) :=
  [("db_name", .str o.dbName), ("response_delay", .int o.delay), ("enable_logging", .bool o.verbose),
   ("enable_validation", .bool o.validation)]

/-- Loads all that files are generated from, and generates them. -/
def generate (o : Options) : Running Unit := do
  let config ← loading fun files => Config.load files o.config o.settings
  if o.verbose then
    let settings ← (config.printed : Except Failure String)
    print s!"Configuration: {settings}"
  let seed ← loading fun files => Seed.load files o.seed
  print s!"Parsing {o.input.text}..."
  let document ← loading fun files => OpenApi.load files o.input
  let spec ← (Spec.parse document : Except Failure Spec)
  print s!"Found {spec.operations.length} endpoints and {spec.schemas.length} schemas."
  print "Generating TypeScript files..."
  let written ← filing (Emit.generate spec o.output (some config) seed)
  print s!"Generated {written.length} files in {o.output.text}"
  (written.mergeSort fun p q => !q.before p).forM fun path =>
    print s!"  {(path.within o.output).text}"

/-- How a run ends. -/
structure Outcome where
  exitCode : Nat
  stdout : String
  stderr : String
  /-- The failure that no message was made of. -/
  escaped : Option Failure
  files : FileTree

/-- Lines as a text. -/
def unlines (lines : List String) : String :=
  String.join (lines.map (· ++ "\n"))

/-- The messages of a run that are shown: all of them, or the warnings. -/
def shownLog (verbose : Bool) (log : List LogEntry) : List String :=
  (log.filter fun e => verbose || e.level = .warning).map LogEntry.line

/-- An end that only prints. -/
def Outcome.printing (files : FileTree) (lines : List String) : Outcome :=
  ⟨0, unlines lines, "", none, files⟩

/-- An end that only complains. -/
def Outcome.complaining (files : FileTree) (lines : List String) : Outcome :=
  ⟨2, "", unlines lines, none, files⟩

/-- The end of a run that performed its task, or tried to. -/
def generateOutcome (files : FileTree) (o : Options) : Outcome :=
  let (r, s) := (generate o).run.run ⟨⟨files, []⟩, []⟩
  let log := shownLog o.verbose s.workspace.log
  let ended := fun (code : Nat) (messages : List String) (escaped : Option Failure) =>
    (⟨code, unlines s.printed, Text.withEscapedHalves (unlines (log ++ messages)), escaped, s.workspace.files⟩ : Outcome)
  match r with
  | .ok () => ended 0 [] none
  | .error (.spec fault) => ended 1 ["Error: " ++ fault.message] none
  | .error f => ended 1 [] (some f)

/-- The version of the program. -/
def version : String := "main, version 0.2.0"

/-- The complaint about a command line. -/
def complaint (p : Program) (c : Command) (problem : Problem) : List String :=
  let error := "Error: " ++ problem.message
  if problem.showsUsage then [usage p c, tryHelp p c, "", error] else [error]

/-- The end of a run that did not come to its task. -/
def stopOutcome (p : Program) (files : FileTree) : Stop → Outcome
  | .nothingAsked => .complaining files (helpLines p .top)
  | .misused c problem => .complaining files (complaint p c problem)
  | .failed f => ⟨1, "", "", some f, files⟩

/-- Runs the program. -/
def run (p : Program) (files : FileTree) (args : List String) : Outcome :=
  match request files args with
  | .error stop => stopOutcome p files stop
  | .ok (.help c) => .printing files (helpLines p c)
  | .ok .version => .printing files [version]
  | .ok (.generate o) => generateOutcome files o

end Cli

end ApiMock
