import ApiMock.Text.Split
/-!
# TypeScript — the modules that a line refers to

Which module a line imports or exports from, read off the line, and which
file that is, seen from the file of the line: the steps of the module are
taken from the directory of the file, and the file found there has the
usual extension or is the index of a directory.
-/

namespace ApiMock

namespace TypeScript

open Text (cut joinWith)

/-! ## Texts between quotes -/

/-- A line starts with one of these openings. -/
def opens (openings : List (List Char)) (line : List Char) : Bool :=
  openings.any (·.isPrefixOf line)

/-- A text does not start with one of these openings, whatever follows it. -/
def opensNone (openings : List (List Char)) (before : List Char) : Bool :=
  openings.all fun o => !o.isPrefixOf before && !before.isPrefixOf o

/-- The first text between single quotes. -/
def firstQuoted? (line : List Char) : Option String :=
  match cut '\'' line with
  | _ :: quoted :: _ :: _ => some (String.ofList quoted)
  | _ => none

/-- The first text between single quotes of a line with one of these openings. -/
def quotedIn? (openings : List (List Char)) (line : String) : Option String :=
  if opens openings line.toList then firstQuoted? line.toList else none

variable {openings os : List (List Char)} {cs lead behind : List Char}
  {before after line quoted : String}

theorem opens_append (h : opens openings cs) : opens openings (cs ++ behind) := by
  obtain ⟨o, ho, hprefix⟩ := List.any_eq_true.mp h
  rw [List.isPrefixOf_iff_prefix] at hprefix
  refine List.any_eq_true.mpr ⟨o, ho, ?_⟩
  rw [List.isPrefixOf_iff_prefix]
  exact hprefix.trans (List.prefix_append _ _)

theorem opens_append_of_opensNone (h : opensNone openings cs) :
    opens openings (cs ++ behind) = false := by
  rw [opens, List.any_eq_false]
  intro o ho hprefix
  have hnone := List.all_eq_true.mp h o ho
  rw [Bool.and_eq_true, Bool.not_eq_true', Bool.not_eq_true', ← Bool.not_eq_true,
    ← Bool.not_eq_true, List.isPrefixOf_iff_prefix, List.isPrefixOf_iff_prefix] at hnone
  rw [List.isPrefixOf_iff_prefix] at hprefix
  rcases List.prefix_or_prefix_of_prefix hprefix (List.prefix_append _ _) with hlike | hlike
  · exact hnone.1 hlike
  · exact hnone.2 hlike

/-- A line without an opening. -/
theorem quotedIn?_of_not_opens (h : opens openings line.toList = false) :
    quotedIn? openings line = none := by
  rw [quotedIn?, h]
  rfl

/-- A text that is written out is looked at character by character. -/
theorem opens_ofList (hos : openings = os) (h : opens os cs = false) :
    opens openings (String.ofList cs).toList = false := by
  rw [String.toList_ofList, hos, h]

theorem opensNone_ofList (hos : openings = os) (h : opensNone os cs) :
    opensNone openings (String.ofList cs).toList := by
  rw [String.toList_ofList, hos, h]

/-- A text without a quote has no text between quotes. -/
theorem firstQuoted?_of_notMem (h : '\'' ∉ cs) : firstQuoted? cs = none := by
  rw [firstQuoted?, Text.cut_of_notMem h]

/-- **The first text between quotes** starts at the first quote and ends at the next. -/
theorem firstQuoted?_eq_some (hlead : '\'' ∉ lead) (hquoted : '\'' ∉ quoted.toList) :
    firstQuoted? (lead ++ '\'' :: (quoted.toList ++ '\'' :: behind)) = some quoted := by
  obtain ⟨piece, pieces, hbehind⟩ := List.exists_cons_of_ne_nil (Text.cut_ne_nil '\'' behind)
  rw [firstQuoted?, Text.cut_append hlead, Text.cut_append hquoted, hbehind]
  exact congrArg some String.ofList_toList

theorem opens_of_ofList (hos : openings = os) (h : opens os cs) :
    opens openings (String.ofList cs ++ after).toList := by
  rw [String.toList_append, String.toList_ofList, hos]
  exact opens_append h

/-- **What a line holds** that starts with an opening and goes on to a text between quotes. -/
theorem quotedIn?_eq_some (lead behind : List Char) (hopens : opens openings line.toList)
    (hline : line.toList = lead ++ '\'' :: (quoted.toList ++ '\'' :: behind))
    (hlead : '\'' ∉ lead) (hquoted : '\'' ∉ quoted.toList) :
    quotedIn? openings line = some quoted := by
  rw [quotedIn?, if_pos hopens, hline, firstQuoted?_eq_some hlead hquoted]

/-! ## Modules -/

/-- How a line starts that imports or exports from a module; the last opening is that of the
end of a list over several lines. -/
def moduleOpenings : List (List Char) :=
  ["import ".toList, "export *".toList, "export \x7b".toList, "\x7d from ".toList]

theorem moduleOpenings_eq : moduleOpenings =
    [['i', 'm', 'p', 'o', 'r', 't', ' '], ['e', 'x', 'p', 'o', 'r', 't', ' ', '*'],
      ['e', 'x', 'p', 'o', 'r', 't', ' ', '\x7b'], ['\x7d', ' ', 'f', 'r', 'o', 'm', ' ']] := by
  decide

/-- The module that a line imports or exports from. -/
def moduleOf? (line : String) : Option String :=
  quotedIn? moduleOpenings line

/-- Where a name of a module leads from a directory. -/
def enter (dir : List (List Char)) (name : List Char) : List (List Char) :=
  if name = ['.'] then dir
  else if name = ['.', '.'] then dir.dropLast
  else dir ++ [name]

/-- The directory of a file. -/
def directory (path : String) : List (List Char) :=
  (cut '/' path.toList).dropLast

/-- Where a module leads from a directory. -/
def targetFrom (dir : List (List Char)) (m : String) : String :=
  String.ofList (joinWith ['/'] ((cut '/' m.toList).foldl enter dir))

/-- Where a module leads from the file at a path. -/
def target (path m : String) : String :=
  targetFrom (directory path) m

/-- A module is relative, and found among some files from the file at a path. -/
structure Resolves (paths : List String) (path m : String) : Prop where
  relative : "./".toList <+: m.toList ∨ "../".toList <+: m.toList
  found : target path m ++ ".ts" ∈ paths ∨ target path m ++ "/index.ts" ∈ paths

instance (paths : List String) (path m : String) : Decidable (Resolves paths path m) :=
  decidable_of_iff (("./".toList <+: m.toList ∨ "../".toList <+: m.toList) ∧
    (target path m ++ ".ts" ∈ paths ∨ target path m ++ "/index.ts" ∈ paths))
    ⟨fun h => ⟨h.1, h.2⟩, fun h => ⟨h.1, h.2⟩⟩

/-- More files do no harm. -/
theorem Resolves.mono {paths others : List String} {path m : String} (h : Resolves paths path m)
    (hsub : ∀ p ∈ paths, p ∈ others) : Resolves others path m :=
  ⟨h.relative, h.found.imp (hsub _) (hsub _)⟩

@[simp] theorem enter_here (dir : List (List Char)) : enter dir ['.'] = dir := rfl

@[simp] theorem enter_up (dir : List (List Char)) : enter dir ['.', '.'] = dir.dropLast := rfl

/-- A name with another character than dots is that of a file or of a directory. -/
theorem enter_of_mem {dir : List (List Char)} {name : List Char} {c : Char} (hc : c ∈ name)
    (hdot : c ≠ '.') : enter dir name = dir ++ [name] := by
  have hplain : ∀ dots : List Char, (∀ d ∈ dots, d = '.') → name ≠ dots := by
    rintro _ hdots rfl
    exact hdot (hdots c hc)
  rw [enter, if_neg (hplain _ (by simp)), if_neg (hplain _ (by simp))]

/-- A file in a directory that is in none. -/
theorem directory_of_names {path dir name : String}
    (hpath : path.toList = dir.toList ++ '/' :: name.toList) (hdir : '/' ∉ dir.toList)
    (hname : '/' ∉ name.toList) : directory path = [dir.toList] := by
  rw [directory, hpath, Text.cut_append hdir, Text.cut_of_notMem hname]
  rfl

/-- Where a module leads that is written name by name. -/
theorem targetFrom_of_names {m : String} {names dir : List (List Char)} (hne : names ≠ [])
    (hnames : ∀ name ∈ names, '/' ∉ name) (hm : m.toList = joinWith ['/'] names) :
    targetFrom dir m = String.ofList (joinWith ['/'] (names.foldl enter dir)) := by
  rw [targetFrom, hm, Text.cut_joinWith hne hnames]

end TypeScript

end ApiMock
