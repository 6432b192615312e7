import ApiMock.Cli.Arguments
import ApiMock.Files.Tree
import ApiMock.Number.Reading
/-!
# Cli — what is asked for

The request that a command line makes: a page of help, the version, or
the task with its options. Options are read in the order they are given,
the input behind them and the rest last, and the first one that is
refused is reported.
-/

namespace ApiMock

namespace Cli

/-- The options of the task. -/
structure Options where
  input : FilePath
  output : FilePath
  dbName : String
  delay : Nat
  config : Option FilePath
  seed : Option FilePath
  verbose : Bool
  validation : Bool
  deriving Repr

/-- The directory that files go to unless another one is named. -/
def defaultOutput : String := "generated-api"

/-- The options before any are given. -/
def Options.defaults : Options where
  input := .ofText ""
  output := .ofText defaultOutput
  dbName := "mockApiDB"
  delay := 200
  config := none
  seed := none
  verbose := false
  validation := true

/-- What a command line asks for. -/
inductive Request where
  | help (command : Command)
  | version
  | generate (options : Options)
  deriving Repr

/-- What stands where a text leads to, taken as it is written: the empty
text leads nowhere, and a slash at the end wants a directory. -/
def standing (files : FileTree) (text : String) : Except Stop (Option FileEntry) :=
  match FileTree.checkText text with
  | .error (.file _) => .ok none
  | .error f => .error (.failed f)
  | .ok () =>
    if text.isEmpty then .ok none
    else
      let names := (Text.cut '/' text.toList).map String.ofList
      match files.walk (FileTree.startOf (FilePath.rootOf text.toList)) names with
      | .ok here => .ok (files.entry? here)
      | .error _ => .ok none

/-- Refuses the value of a parameter. -/
def refuse {α : Type} (p : Parameter) (problem : ValueProblem) : Except Stop α :=
  .error (.misused .generate (.badValue p problem))

/-- A file that must be there. -/
def readInput (files : FileTree) (operands : List String) : Except Stop FilePath := do
  match operands with
  | [] => throw (.misused .generate .noInput)
  | text :: _ =>
    match ← standing files text with
    | none => refuse .input (.missing text)
    | some .directory => refuse .input (.isDirectory text)
    | some (.file _) => return .ofText text

/-- A file that need not be there. -/
def readFile (files : FileTree) (p : Parameter) (text : String) : Except Stop FilePath := do
  match ← standing files text with
  | some .directory => refuse p (.isDirectory text)
  | _ => return .ofText text

/-- A directory that need not be there. -/
def readDirectory (files : FileTree) (p : Parameter) (text : String) : Except Stop FilePath := do
  match ← standing files text with
  | some (.file _) => refuse p (.isFile text)
  | _ => return .ofText text

/-- A number of milliseconds. -/
def readDelay (text : String) : Except Stop Nat :=
  if Number.mostDigits < (text.toList.filter fun c => (Text.digitValue? c).isSome).length then
    refuse .delay (.notInt text)
  else
    match Number.foreignInt? 10 text.toList with
    | none => refuse .delay (.notInt text)
    | some n => if n < 0 then refuse .delay (.negative n) else .ok n.toNat

/-- Reads a parameter into the options. Only the output is read when it
is not given, since the default may be in use as a file. -/
def Options.read (files : FileTree) (a : Arguments) (o : Options) (p : Parameter) :
    Except Stop Options := do
  match p, a.value? p with
  | .input, _ => return { o with input := ← readInput files a.operands }
  | .output, some (.text s) => return { o with output := ← readDirectory files p s }
  | .output, _ => return { o with output := ← readDirectory files p defaultOutput }
  | .dbName, some (.text s) => return { o with dbName := s }
  | .delay, some (.text s) => return { o with delay := ← readDelay s }
  | .config, some (.text s) => return { o with config := some (← readFile files p s) }
  | .seed, some (.text s) => return { o with seed := some (← readFile files p s) }
  | .verbose, some (.flag b) => return { o with verbose := b }
  | .validation, some (.flag b) => return { o with validation := b }
  | _, _ => return o

/-- The order in which parameters are read. -/
def Arguments.order (a : Arguments) : List Parameter :=
  a.given.map (·.1) ++ [.input, .output]

/-- The options of the task, if nothing is wrong with them. -/
def Options.ofArguments (files : FileTree) (a : Arguments) : Except Stop Options := do
  let o ← a.order.foldlM (Options.read files a) .defaults
  match a.operands.drop 1 with
  | [] => return o
  | extra => throw (.misused .generate (.extra extra))

/-- What the arguments of the task ask for. -/
def generateRequest (files : FileTree) (args : List String) : Except Stop Request := do
  let a ← (Arguments.read .generate args).mapError (.misused .generate)
  match a.eager? with
  | some _ => return .help .generate
  | none => return .generate (← Options.ofArguments files a)

/-- The name of the task on the command line. -/
def generateName : String := "generate"

/-- A name that looks like a switch starts with some mark. -/
def looksLikeSwitch (name : String) : Bool :=
  match name.toList with
  | [] => false
  | c :: _ => !c.isAlphanum

/-- Help or version, if the arguments of the program ask for it. -/
def eagerRequest? (a : Arguments) : Option Request :=
  a.eager?.map fun p => if p = .version then .version else .help .top

/-- The complaint about a command that does not exist. -/
def noSuchCommand (name : String) : Stop :=
  .misused .top (.unknownCommand name (Text.similar name [generateName]))

/-- What is said about a command that does not exist. A name that looks
like a switch is first tried as one. -/
def unknownCommand (name : String) (rest : List String) : Except Stop Request := do
  if looksLikeSwitch name then
    let a ← (Arguments.read .top (name :: rest)).mapError (.misused .top)
    match eagerRequest? a with
    | some r => return r
    | none => throw (noSuchCommand name)
  else throw (noSuchCommand name)

/-- What a command line asks for. -/
def request (files : FileTree) (args : List String) : Except Stop Request := do
  if args.isEmpty then throw .nothingAsked
  let a ← (Arguments.read .top args).mapError (.misused .top)
  match eagerRequest? a, a.operands with
  | some r, _ => return r
  | none, [] => throw (.misused .top .noCommand)
  | none, name :: rest =>
    if name = generateName then generateRequest files rest else unknownCommand name rest

end Cli

end ApiMock
