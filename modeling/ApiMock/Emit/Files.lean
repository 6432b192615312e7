import ApiMock.Blueprint.Basic
import ApiMock.Emit.ApiConfig
import ApiMock.Emit.Client
import ApiMock.Emit.DbSetup
import ApiMock.Emit.Lines
import ApiMock.Emit.Store
import ApiMock.Emit.Types
/-!
# Emit — all files

The generated files by their paths below the output directory. Seven of
them are always there, among them the index files, which gather the
exports of the others; every group adds a client and a store.
-/

namespace ApiMock

namespace Emit

/-! ## Index files -/

/-- The lines that export everything. -/
def indexLines : List String := [
  "// Generated API Exports",
  "export * from './types';",
  "export * from './api';",
  "export * from './db';",
  "export * from './config/api-config';"]

/-- The file that exports everything. -/
def indexFile : String := unlines indexLines

/-- The lines that export the types. -/
def typesIndexLines : List String := [
  "// Generated Type Exports",
  "export * from './index.types';"]

/-- The file that exports the types. -/
def typesIndexFile : String := unlines typesIndexLines

/-- The line that exports a module beside an index file. -/
def exportLine (stem : String) : String :=
  "export * from './" ++ stem ++ "';"

/-- The lines that export the clients of all groups. -/
def apiIndexLines (groups : List Group) : List String :=
  "// Generated API Function Exports" :: groups.map fun g => exportLine (g.slug ++ "-api")

/-- The file that exports the clients of all groups. -/
def apiIndexFile (groups : List Group) : String := unlines (apiIndexLines groups)

/-- The lines that export the stores of all groups. -/
def dbIndexLines (groups : List Group) : List String :=
  "// Generated Database Layer Exports" :: exportLine "db-setup" ::
    groups.map fun g => exportLine (g.slug ++ "-db")

/-- The file that exports the stores of all groups. -/
def dbIndexFile (groups : List Group) : String := unlines (dbIndexLines groups)

/-! ## All files -/

/-- The path of the client of a group. -/
def clientPath (g : Group) : String := "api/" ++ g.slug ++ "-api.ts"

/-- The path of the store of a group. -/
def storePath (g : Group) : String := "db/" ++ g.slug ++ "-db.ts"

/-- The files that do not belong to a group. -/
def fixedFiles (b : Blueprint) : Except Failure (List (String × String)) := do
  let config ← configFile b
  return [("index.ts", indexFile),
   ("config/api-config.ts", config),
   ("types/index.ts", typesIndexFile),
   ("types/index.types.ts", typesFile b),
   ("api/index.ts", apiIndexFile b.groups),
   ("db/index.ts", dbIndexFile b.groups),
   ("db/db-setup.ts", setupFile b.groups)]

/-- Adds the files of a group. -/
def addGroup (files : List (String × String)) (g : Group) :
    Except Failure (List (String × String)) := do
  let store ← storeFile g
  return Entries.put (storePath g) store (Entries.put (clientPath g) (clientFile g) files)

/-- All files of a blueprint, by path. -/
def files (b : Blueprint) : Except Failure (List (String × String)) := do
  b.groups.foldlM addGroup (← fixedFiles b)

end Emit

end ApiMock
