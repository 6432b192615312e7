import ApiMock.Data.Coerce
import ApiMock.Entries
import ApiMock.Json.Printer
/-!
# Config — settings of the generator

The settings, their defaults, and how they are read from named values.
Every setting has two names: the one used here and the one used in the
generated files, which wins if both are given. A value is read leniently;
if any setting refuses its value, all that do are named and there are no
settings at all.

An error rate that nobody stated is the whole number zero, and is written
as such; a stated one is a floating-point value.
-/

namespace ApiMock

/-- The settings of the generator. -/
structure Config where
  dbName : String
  responseDelay : Nat
  enableLogging : Bool
  enableValidation : Bool
  outputFormat : String
  errorRate : Option Binary64
  generateTests : Bool

namespace Config

/-- The settings when nothing is stated. -/
def defaults : Config where
  dbName := "mockApiDB"
  responseDelay := 200
  enableLogging := false
  enableValidation := true
  outputFormat := "typescript"
  errorRate := none
  generateTests := false

/-- The settings by name. -/
inductive Setting where
  | dbName
  | responseDelay
  | enableLogging
  | enableValidation
  | outputFormat
  | errorRate
  | generateTests
  deriving DecidableEq, Repr

/-- All settings, in the order they are reported. -/
def Setting.all : List Setting :=
  [.dbName, .responseDelay, .enableLogging, .enableValidation, .outputFormat, .errorRate,
    .generateTests]

/-- The name of a setting. -/
def Setting.name : Setting → String
  | dbName => "db_name"
  | responseDelay => "response_delay"
  | enableLogging => "enable_logging"
  | enableValidation => "enable_validation"
  | outputFormat => "output_format"
  | errorRate => "error_rate"
  | generateTests => "generate_tests"

/-- The name of a setting in generated files. -/
def Setting.alias : Setting → String
  | dbName => "dbName"
  | responseDelay => "responseDelay"
  | enableLogging => "enableLogging"
  | enableValidation => "enableValidation"
  | outputFormat => "outputFormat"
  | errorRate => "errorRate"
  | generateTests => "generateTests"

/-- Reads a value into a setting. -/
def Setting.read (s : Setting) (d : Data) (c : Config) : Except String Config :=
  match s with
  | dbName => do return { c with dbName := ← Data.fieldText d }
  | responseDelay => do return { c with responseDelay := ← Coerce.count d }
  | enableLogging => do return { c with enableLogging := ← Coerce.truth d }
  | enableValidation => do return { c with enableValidation := ← Coerce.truth d }
  | outputFormat => do return { c with outputFormat := ← Coerce.literal ["typescript"] d }
  | errorRate => do return { c with errorRate := some (← Coerce.share d) }
  | generateTests => do return { c with generateTests := ← Coerce.truth d }

/-- The value of a setting, with the name it is given under. -/
def Setting.given? (s : Setting) (values : List (String × Data)) : Option (String × Data) :=
  match values.lookup s.alias with
  | some d => some (s.alias, d)
  | none => (values.lookup s.name).map (s.name, ·)

/-- Reads one setting, or adds its fault. -/
def step (values : List (String × Data)) (acc : Config × List FieldFault) (s : Setting) :
    Config × List FieldFault :=
  match s.given? values with
  | none => acc
  | some (name, d) =>
    match s.read d acc.1 with
    | .ok c => (c, acc.2)
    | .error reason => (acc.1, acc.2 ++ [⟨name, reason⟩])

/-- The settings that named values give, the defaults for the rest. -/
def ofValues (values : List (String × Data)) : Except Failure Config := do
  let (c, faults) := Setting.all.foldl (step values) (defaults, [])
  Data.refuseFaults faults
  return c

/-- The value of a setting. -/
def value (c : Config) : Setting → Data
  | .dbName => .str c.dbName
  | .responseDelay => .int c.responseDelay
  | .enableLogging => .bool c.enableLogging
  | .enableValidation => .bool c.enableValidation
  | .outputFormat => .str c.outputFormat
  | .errorRate =>
    match c.errorRate with
    | some x => .scalar (.float x)
    | none => .int 0
  | .generateTests => .bool c.generateTests

/-- All settings by name. -/
def values (c : Config) : List (String × Data) :=
  Setting.all.map fun s => (s.name, c.value s)

/-- The error rate as it stands in generated files. -/
def errorRateText (c : Config) : String :=
  match c.errorRate with
  | some x => Number.plainText x
  | none => "0"

/-! ## The settings printed -/

/-- The error rate as it is printed, always with a point or an exponent. -/
def printedRate (c : Config) : String :=
  let x := c.errorRate.getD (Binary64.zero false)
  String.ofList (Number.finiteText Number.compactLayout x)

/-- A text as it is printed. -/
def printedText (s : String) : Except Failure String :=
  match Json.quoteUnicode? s with
  | some t => .ok t
  | none => .error .unprintableSettings

/-- A setting as it is printed. -/
def printedValue (c : Config) : Setting → Except Failure String
  | .dbName => printedText c.dbName
  | .outputFormat => printedText c.outputFormat
  | .errorRate => .ok c.printedRate
  | .responseDelay => .ok (toString c.responseDelay)
  | .enableLogging => .ok (if c.enableLogging then "true" else "false")
  | .enableValidation => .ok (if c.enableValidation then "true" else "false")
  | .generateTests => .ok (if c.generateTests then "true" else "false")

/-- All settings as a printed JSON object. -/
def printed (c : Config) : Except Failure String := do
  return Json.block "\x7b" "\x7d" 0 (← Setting.all.mapM fun s => do
    return (← printedText s.name) ++ ": " ++ (← c.printedValue s))

end Config

end ApiMock
