import ApiMock.Cli.Parameter
import ApiMock.Text.Split
/-!
# Cli — pages of help

The pages that explain the commands. Explanations are wrapped to the
width of the page; the names they belong to stand in a column of their
own on the left.
-/

namespace ApiMock

namespace Cli

/-- How the program is called, and how wide its pages are. -/
structure Program where
  name : String
  width : Nat
  deriving Repr

/-- A line in the making, and the lines behind it, wrapped. `pieces` are
words with the blanks in front of them. -/
def wrapPieces (width : Nat) (line : String) : List (String × String) → List String
  | [] => [line]
  | (blank, word) :: rest =>
    if line.isEmpty then wrapPieces width word rest
    else if line.length + blank.length + word.length ≤ width then
      wrapPieces width (line ++ blank ++ word) rest
    else line :: wrapPieces width word rest

/-- A text in lines no wider than a width, unless a word is. Some parts
have a wider gap in front of them. -/
def wrap (width : Nat) (parts : List String) : List String :=
  let words := fun (part : String) => (Text.words part.toList).map String.ofList
  let pieces := parts.flatMap fun part =>
    match words part with
    | [] => []
    | first :: rest => ("  ", first) :: rest.map fun w => (" ", w)
  wrapPieces width "" pieces

/-- A text filled up with spaces. -/
def padded (width : Nat) (s : String) : String :=
  s ++ String.ofList (List.replicate (width - s.length) ' ')

/-- A name and the parts of its explanation. -/
abbrev Row := String × List String

/-- The width of the column of names. -/
def nameWidth (rows : List Row) : Nat :=
  min 30 ((rows.map fun r => r.1.length).foldl max 0) + 2

/-- A row of a table in lines. -/
def rowLines (width column : Nat) (row : Row) : List String :=
  match wrap (width - column - 2) row.2 with
  | [] => ["  " ++ row.1]
  | first :: rest =>
    ("  " ++ padded column row.1 ++ first) :: rest.map fun line => padded (column + 2) "" ++ line

/-- A table in lines. -/
def table (width : Nat) (rows : List Row) : List String :=
  rows.flatMap (rowLines width (nameWidth rows))

/-- The call of a command, and what it is followed by. -/
def usage (p : Program) : Command → String
  | .top => s!"Usage: {p.name} [OPTIONS] COMMAND [ARGS]..."
  | .generate => s!"Usage: {p.name} generate [OPTIONS] INPUT"

/-- Where help on a command is found. -/
def tryHelp (p : Program) : Command → String
  | .top => s!"Try '{p.name} --help' for help."
  | .generate => s!"Try '{p.name} generate --help' for help."

/-- What a command does. -/
def purpose : Command → String
  | .top =>
    "Generate TypeScript API files with IndexedDB mock implementations from OpenAPI specs."
  | .generate => "Generate TypeScript API files from an OpenAPI specification."

/-- The explained options of a command. -/
def optionRows : Command → List Row
  | .top =>
    [("--version", ["Show the version and exit."]), ("--help", ["Show this message and exit."])]
  | .generate =>
    [("-o, --output DIRECTORY",
        ["Output directory for generated files.", "[default: generated-api]"]),
     ("-d, --db-name TEXT", ["IndexedDB database name.", "[default: mockApiDB]"]),
     ("--delay INTEGER RANGE",
        ["Response delay simulation in milliseconds.", "[default: 200; x>=0]"]),
     ("--config FILE", ["Path to a JSON or YAML configuration file."]),
     ("--seed FILE", ["Path to a JSON or YAML seed data file."]),
     ("--verbose", ["Enable verbose logging."]),
     ("--validation / --no-validation", ["Enable schema validation in generated code."]),
     ("--help", ["Show this message and exit."])]

/-- The explained commands of the program. -/
def commandRows : List Row :=
  [("generate", [purpose .generate])]

/-- The page of help for a command, in lines. -/
def helpLines (p : Program) (c : Command) : List String :=
  let commands := match c with
    | .top => ["", "Commands:"] ++ table p.width commandRows
    | .generate => []
  [usage p c, ""] ++ (wrap (p.width - 2) [purpose c]).map ("  " ++ ·) ++
    ["", "Options:"] ++ table p.width (optionRows c) ++ commands

end Cli

end ApiMock
