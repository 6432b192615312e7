/-!
# Emit — lines

Generated files are put together from lines.
-/

namespace ApiMock

namespace Emit

/-- A text of these lines, each with a line feed behind it. -/
def unlines (lines : List String) : String :=
  String.join (lines.map (· ++ "\n"))

/-- The first line comes first. -/
theorem unlines_cons {line : String} {lines : List String} :
    unlines (line :: lines) = line ++ "\n" ++ unlines lines := by
  rw [unlines, List.map_cons, String.join_cons, unlines]

/-- Lines in two parts are one text behind the other. -/
theorem unlines_append {lines others : List String} :
    unlines (lines ++ others) = unlines lines ++ unlines others := by
  rw [unlines, List.map_append, String.join_append, unlines, unlines]

/-- A text with every line feed replaced by a blank. -/
def flat (s : String) : String :=
  String.ofList (s.toList.map fun c => if c = '\n' then ' ' else c)

end Emit

end ApiMock
