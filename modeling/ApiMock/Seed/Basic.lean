import ApiMock.Data.Shown
import ApiMock.Entries
import ApiMock.Log
import ApiMock.Naming
/-!
# Seed — records of the groups

Records that the stores of the groups start with. A seed document maps
group names to lists of records. Names are taken in canonical form, as
tags are; of two names with one canonical form the later list counts.
Whatever is no list is left out, and that is reported.
-/

namespace ApiMock

/-- The records of the groups, by canonical name. -/
abbrev Seed := List (String × List Data)

namespace Seed

/-- The message for an entry that is no list. -/
def skippedMessage (key : Scalar) : String :=
  s!"Seed data for {key.quoted} is not an array, skipping"

/-- Adds an entry of a seed document. -/
def addEntry (seed : Seed) (entry : Scalar × Data) : Logged Seed := do
  let name ← (entry.1.plainText : Except Failure String)
  match entry.2 with
  | .list records => return Entries.put (Naming.pascal name) records seed
  | _ =>
    report .warning .seed (skippedMessage entry.1)
    return seed

/-- The records that a seed document holds. -/
def ofDocument (document : Data) : Logged Seed :=
  match document with
  | .map es => es.foldlM addEntry []
  | _ => throw .seedNotMapping

/-- The records of a group; none if there is no seed for it. -/
def records (seed : Option Seed) (group : String) : List Data :=
  ((seed.getD []).lookup group).getD []

/-- What was loaded, group by group. -/
def summary (seed : Seed) : String :=
  if seed.isEmpty then "empty"
  else String.intercalate ", " (seed.map fun e => s!"{e.1}: {e.2.length} items")

end Seed

end ApiMock
