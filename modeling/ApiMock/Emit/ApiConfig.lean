import ApiMock.Blueprint.Basic
import ApiMock.Emit.Lines
import ApiMock.Json.Encode
/-!
# Emit — the configuration file

The settings and what the API says about itself, as literals.
-/

namespace ApiMock

namespace Emit

/-- A text as a literal. -/
def textLiteral (s : String) : String :=
  Json.guardMarkup (Json.quote s)

/-- A list of texts as a literal. -/
def textListLiteral (texts : List String) : String :=
  Json.guardMarkup (Json.arr (texts.map Json.str)).render

/-- A truth value as a literal. -/
def truthText (b : Bool) : String :=
  if b then "true" else "false"

/-- The response delay as a literal. -/
def delayLiteral (c : Config) : Except Failure String :=
  (Scalar.int c.responseDelay).plainText

/-- The lines with the settings. `delay` is the literal of the response delay. -/
def configLines (b : Blueprint) (delay : String) : List String := [
  "// Generated API Configuration",
  "export interface ApiConfig \x7b",
  "  dbName: string;",
  "  responseDelay: number;",
  "  enableLogging: boolean;",
  "  enableValidation: boolean;",
  "  errorRate: number;",
  "\x7d",
  "",
  "export const defaultConfig: ApiConfig = \x7b",
  "  dbName: " ++ textLiteral b.config.dbName ++ ",",
  "  responseDelay: " ++ delay ++ ",",
  "  enableLogging: " ++ truthText b.config.enableLogging ++ ",",
  "  enableValidation: " ++ truthText b.config.enableValidation ++ ",",
  "  errorRate: " ++ b.config.errorRateText,
  "\x7d;",
  "",
  "export const apiInfo = \x7b",
  "  title: " ++ textLiteral b.info.title ++ ",",
  "  version: " ++ textLiteral b.info.version ++ ",",
  "  description: " ++ textLiteral (b.info.description.getD "") ++ ",",
  "  servers: " ++ textListLiteral (b.servers.map (·.url)),
  "\x7d;"]

/-- The file with the settings. -/
def configFile (b : Blueprint) : Except Failure String := do
  let delay ← delayLiteral b.config
  return unlines (configLines b delay)

end Emit

end ApiMock
