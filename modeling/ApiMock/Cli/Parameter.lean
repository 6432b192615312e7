import ApiMock.Failure
import ApiMock.Text.Quoted
/-!
# Cli — commands and parameters

The commands of the program, what each of them can be told, and how that
is spelled on the command line; why a command line is refused, and how
that is said.
-/

namespace ApiMock

namespace Cli

/-- A command: the program as a whole, or its one task. -/
inductive Command where
  | top
  | generate
  deriving DecidableEq, Repr

/-- What a command can be told. -/
inductive Parameter where
  | input
  | output
  | dbName
  | delay
  | config
  | seed
  | verbose
  | validation
  | help
  | version
  deriving DecidableEq, Repr

/-- A spelling of a parameter. It sets a truth value, or takes the value
that follows. -/
structure Switch where
  name : String
  parameter : Parameter
  setting : Option Bool
  deriving Repr

/-- The switches of a command. -/
def Command.switches : Command → List Switch
  | top => [⟨"--version", .version, some true⟩, ⟨"--help", .help, some true⟩]
  | generate =>
    [⟨"-o", .output, none⟩, ⟨"--output", .output, none⟩,
     ⟨"-d", .dbName, none⟩, ⟨"--db-name", .dbName, none⟩,
     ⟨"--delay", .delay, none⟩,
     ⟨"--config", .config, none⟩,
     ⟨"--seed", .seed, none⟩,
     ⟨"--verbose", .verbose, some true⟩,
     ⟨"--validation", .validation, some true⟩, ⟨"--no-validation", .validation, some false⟩,
     ⟨"--help", .help, some true⟩]

/-- Starts with two dashes. -/
def isLong (name : String) : Bool :=
  name.toList.take 2 = ['-', '-']

/-- The switches that are words. -/
def Command.longSwitches (c : Command) : List Switch :=
  c.switches.filter fun s => isLong s.name

/-- The switch of a command with a name. -/
def Command.switch? (c : Command) (name : String) : Option Switch :=
  c.switches.find? fun s => s.name = name

/-- How a parameter is named in messages: by its spellings in quotes. -/
def Parameter.shown : Parameter → String
  | input => "'INPUT'"
  | p =>
    let names := (Command.generate.switches.filter fun s => s.parameter = p).map (·.name)
    String.intercalate " / " (names.map fun n => "'" ++ n ++ "'")

/-! ## Misuse -/

/-- Why the value of a parameter is refused. -/
inductive ValueProblem where
  | missing (file : String)
  | isDirectory (file : String)
  | isFile (directory : String)
  | notInt (text : String)
  | negative (n : Int)
  deriving Repr

/-- Why a value is refused, in words. -/
def ValueProblem.message : ValueProblem → String
  | missing file => s!"File {Text.quoted file} does not exist."
  | isDirectory file => s!"File {Text.quoted file} is a directory."
  | isFile directory => s!"Directory {Text.quoted directory} is a file."
  | notInt text => s!"{Text.quoted text} is not a valid integer range."
  | negative n => s!"{n} is not in the range x>=0."

/-- Why a command line is refused. -/
inductive Problem where
  | noCommand
  | unknownCommand (name : String) (similar : List String)
  | unknownSwitch (name : String) (similar : List String)
  | needsValue (name : String)
  | takesNoValue (name : String)
  | noInput
  | badValue (parameter : Parameter) (problem : ValueProblem)
  | extra (operands : List String)
  deriving Repr

/-- A hint at names that may have been meant. -/
def hint (similar : List String) : String :=
  match similar.map Text.quoted with
  | [] => ""
  | [name] => s!" Did you mean {name}?"
  | names => " (Possible options: " ++ String.intercalate ", " names ++ ")"

/-- Why a command line is refused, in words. -/
def Problem.message : Problem → String
  | noCommand => "Missing command."
  | unknownCommand name similar => s!"No such command {Text.quoted name}." ++ hint similar
  | unknownSwitch name similar => s!"No such option {Text.quoted name}." ++ hint similar
  | needsValue name => s!"Option {Text.quoted name} requires an argument."
  | takesNoValue name => s!"Option {Text.quoted name} does not take a value."
  | noInput => "Missing argument 'INPUT'."
  | badValue parameter problem => s!"Invalid value for {parameter.shown}: {problem.message}"
  | extra [operand] => s!"Got unexpected extra argument ({operand})"
  | extra operands =>
    "Got unexpected extra arguments (" ++ String.intercalate " " operands ++ ")"

/-- Whether the usage of the command is shown too. A switch that lacks its
value, or has one too many, is not blamed on the command. -/
def Problem.showsUsage : Problem → Bool
  | needsValue _ => false
  | takesNoValue _ => false
  | _ => true

/-- Why a run ends before its task is begun. -/
inductive Stop where
  | nothingAsked
  | misused (command : Command) (problem : Problem)
  | failed (failure : Failure)
  deriving Repr

end Cli

end ApiMock
