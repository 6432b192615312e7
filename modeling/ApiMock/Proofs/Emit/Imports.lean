import ApiMock.Proofs.Emit.Paths
import ApiMock.Proofs.Naming.Identifier
import ApiMock.Proofs.TypeScript.Modules
/-!
# Emit — what the files refer to

The lines of each file, and what they refer to: modules, named by the
lines that import or export from them, and stores. Every module is found
among the files (`references_found`), since the lines and the paths take
the same slug of a group; every store is one of those that the database is
opened with; and the index files export the client and the store of every
group.
-/

namespace ApiMock

open TypeScript

namespace Emit

open Entries Naming Sequence

variable {s : Spec} {config : Option Config} {seed : Option Seed} {b : Blueprint}
  {log : List LogEntry} {fs : List (String × String)} {g : Group} {r : Route}
  {path line before after delay records m n : String} {lines others : List String}
  {openings : List (List Char)}

/-! ## What a line refers to -/

/-- The lines of a blueprint, file by file. -/
inductive LinesOf (b : Blueprint) : String → List String → Prop
  | index : LinesOf b "index.ts" indexLines
  | config {delay : String} (h : delayLiteral b.config = .ok delay) :
      LinesOf b "config/api-config.ts" (configLines b delay)
  | typesIndex : LinesOf b "types/index.ts" typesIndexLines
  | types : LinesOf b "types/index.types.ts" (typesLines b)
  | apiIndex : LinesOf b "api/index.ts" (apiIndexLines b.groups)
  | dbIndex : LinesOf b "db/index.ts" (dbIndexLines b.groups)
  | setup : LinesOf b "db/db-setup.ts" (setupLines b.groups)
  | client {g : Group} (hg : g ∈ b.groups) : LinesOf b (clientPath g) (clientLines g)
  | store {g : Group} {records : String} (hg : g ∈ b.groups)
      (h : Json.literalBlock (.list g.seed) = .ok records) :
      LinesOf b (storePath g) (storeLines g records)

/-- How the line starts that names the store of a file. -/
def storeOpening : List Char := "  private readonly storeName = ".toList

theorem storeOpening_eq : storeOpening =
    [' ', ' ', 'p', 'r', 'i', 'v', 'a', 't', 'e', ' ', 'r', 'e', 'a', 'd', 'o', 'n', 'l', 'y', ' ',
      's', 't', 'o', 'r', 'e', 'N', 'a', 'm', 'e', ' ', '=', ' '] := by
  decide

/-- The store that a line names. -/
def storeOf? (line : String) : Option String :=
  quotedIn? [storeOpening] line

/-- The stores that the database is opened with: the texts in quotes between the brackets. -/
def listedStores (lines : List String) : List String :=
  ((lines.dropWhile (· ≠ "export const STORE_NAMES = [")).tail.takeWhile (· ≠ "];")).filterMap
    fun line => firstQuoted? line.toList

/-- Some lines of the file at a path export the module of another file. -/
def Reexports (path other : String) (lines : List String) : Prop :=
  ∃ line ∈ lines, "export * from ".toList <+: line.toList ∧
    ∃ m ∈ moduleOf? line, target path m ++ ".ts" = other

/-- None of some lines has one of these openings. -/
def Silent (openings : List (List Char)) (lines : List String) : Prop :=
  ∀ line ∈ lines, opens openings line.toList = false

@[simp] theorem silent_nil : Silent openings [] := List.forall_mem_nil _

theorem silent_cons : Silent openings (line :: lines) ↔
    opens openings line.toList = false ∧ Silent openings lines :=
  List.forall_mem_cons

theorem silent_append :
    Silent openings (lines ++ others) ↔ Silent openings lines ∧ Silent openings others :=
  List.forall_mem_append

/-- A line that starts like no opening. -/
theorem opens_line (h : opensNone openings before.toList) :
    opens openings (before ++ after).toList = false := by
  rw [String.toList_append, opens_append_of_opensNone h]

/-! ## Lines without a module -/

theorem silent_configLines : Silent moduleOpenings (configLines b delay) := by
  simp only [configLines, silent_cons, silent_nil, and_true, String.append_assoc]
  -- lines with a text in them are told by how they start, the others are written out
  simp (disch := exact opensNone_ofList moduleOpenings_eq rfl) only [opens_line, true_and]
  and_intros <;> exact opens_ofList moduleOpenings_eq rfl

theorem silent_setupTail : Silent moduleOpenings setupTail := by
  rw [setupTail]
  repeat refine silent_cons.mpr ⟨opens_ofList moduleOpenings_eq rfl, ?_⟩
  exact silent_nil

/-- A method refers to nothing: what it needs is imported at the head of its client. -/
theorem silent_method : Silent moduleOpenings (method r) := by
  rw [method]
  split
  all_goals
    simp only [methodComment, methodHead, methodTail, bodyGuard, silent_append, silent_cons,
      silent_nil, and_true, String.append_assoc]
    simp (disch := exact opensNone_ofList moduleOpenings_eq rfl) only [opens_line, true_and]
    and_intros <;> exact opens_ofList moduleOpenings_eq rfl

/-- A client refers to nothing behind its first four lines. -/
theorem silent_client :
    Silent moduleOpenings ((clientHead g).drop 4 ++ clientTail g) := by
  simp only [clientHead, List.drop, clientTail, silent_append, silent_cons, silent_nil, and_true,
    String.append_assoc]
  simp (disch := exact opensNone_ofList moduleOpenings_eq rfl) only [opens_line, true_and]
  and_intros <;> exact opens_ofList moduleOpenings_eq rfl

theorem silent_boundFunctions : Silent moduleOpenings (g.routes.map (boundFunction g)) := by
  refine List.forall_mem_map.mpr fun r _ => ?_
  dsimp only [boundFunction]
  simp only [String.append_assoc]
  exact opens_line (opensNone_ofList moduleOpenings_eq rfl)

theorem silent_commonTypes : Silent moduleOpenings commonTypes := by
  rw [commonTypes]
  repeat refine silent_cons.mpr ⟨opens_ofList moduleOpenings_eq rfl, ?_⟩
  exact silent_nil

theorem silent_declaration (d : Declaration) : Silent moduleOpenings [d.render, ""] := by
  refine silent_cons.mpr ⟨?_, silent_cons.mpr ⟨opens_ofList moduleOpenings_eq rfl, silent_nil⟩⟩
  rw [Declaration.render]
  cases d.comment <;> cases d.body
  all_goals
    simp only [commentLine, String.empty_append, String.append_assoc]
    exact opens_line (opensNone_ofList moduleOpenings_eq rfl)

theorem silent_requestLines (q : RequestType) : Silent moduleOpenings (requestLines n q) := by
  have hfields : ∀ indent, opensNone moduleOpenings (String.toList indent) →
      ∀ fields : List (PropertyKey × TypeExpr),
        Silent moduleOpenings (fields.map (fieldLine indent)) := by
    intro indent h fields
    refine List.forall_mem_map.mpr fun f _ => ?_
    simp only [fieldLine, String.append_assoc]
    exact opens_line h
  have hquery : ∀ fields, Silent moduleOpenings (queryLines fields) := by
    intro fields
    rw [queryLines]
    split
    · exact silent_nil
    · simp only [silent_append, silent_cons, silent_nil, and_true]
      exact ⟨⟨opens_ofList moduleOpenings_eq rfl,
        hfields _ (opensNone_ofList moduleOpenings_eq rfl) _⟩, opens_ofList moduleOpenings_eq rfl⟩
  have hbody : Silent moduleOpenings (bodyLines q.body) := by
    rw [bodyLines]
    split
    · exact silent_nil
    · rw [silent_cons, String.append_assoc]
      exact ⟨opens_line (opensNone_ofList moduleOpenings_eq rfl), silent_nil⟩
  simp only [requestLines, silent_append, silent_cons, silent_nil, and_true, String.append_assoc]
  refine ⟨⟨⟨⟨?_, hfields _ (opensNone_ofList moduleOpenings_eq rfl) _⟩, hquery _⟩, hbody⟩,
    opens_ofList moduleOpenings_eq rfl, opens_ofList moduleOpenings_eq rfl⟩
  exact opens_line (opensNone_ofList moduleOpenings_eq rfl)

theorem silent_endpointLines (e : EndpointTypes) : Silent moduleOpenings (endpointLines e) := by
  simp only [endpointLines, silent_append, silent_cons, silent_nil, and_true, String.append_assoc]
  refine ⟨?_, opens_line (opensNone_ofList moduleOpenings_eq rfl),
    opens_ofList moduleOpenings_eq rfl⟩
  cases e.request with
  | none => exact silent_nil
  | some q => exact silent_requestLines q

/-- The types refer to nothing: what they need they declare. -/
theorem silent_typesLines : Silent moduleOpenings (typesLines b) := by
  have hheader : Silent moduleOpenings (typesHeader b.info) := by
    rw [typesHeader]
    split
    all_goals
      simp only [silent_append, silent_cons, silent_nil, and_true, String.append_assoc]
      simp (disch := exact opensNone_ofList moduleOpenings_eq rfl) only [opens_line, and_true]
      exact opens_ofList moduleOpenings_eq rfl
  simp only [typesLines, silent_append, silent_cons, silent_nil, and_true]
  exact ⟨⟨⟨⟨hheader, silent_commonTypes⟩,
    List.forall_mem_flatMap.mpr fun d _ => silent_declaration d⟩,
    opens_ofList moduleOpenings_eq rfl, opens_ofList moduleOpenings_eq rfl⟩,
    List.forall_mem_flatMap.mpr fun e _ => silent_endpointLines e⟩

/-! ## The lines of a store -/

/-- The openings of all lines of a store that refer to something. -/
def storeOpenings : List (List Char) := storeOpening :: moduleOpenings

theorem storeOpenings_eq : storeOpenings =
    [[' ', ' ', 'p', 'r', 'i', 'v', 'a', 't', 'e', ' ', 'r', 'e', 'a', 'd', 'o', 'n', 'l', 'y', ' ',
        's', 't', 'o', 'r', 'e', 'N', 'a', 'm', 'e', ' ', '=', ' '],
      ['i', 'm', 'p', 'o', 'r', 't', ' '], ['e', 'x', 'p', 'o', 'r', 't', ' ', '*'],
      ['e', 'x', 'p', 'o', 'r', 't', ' ', '\x7b'], ['\x7d', ' ', 'f', 'r', 'o', 'm', ' ']] := by
  rw [storeOpenings, storeOpening_eq, moduleOpenings_eq]

set_option maxRecDepth 1000 in
/-- A store refers to nothing behind its first ten lines, but for the line with its name. -/
theorem silent_store (g : Group) (records : String) :
    Silent storeOpenings (((storeHead g records).take 20).drop 10 ++
      (storeHead g records).drop 21 ++ storeSeeding g) := by
  simp only [storeHead, storeSeeding, List.take, List.drop, silent_append, silent_cons,
    silent_nil, and_true, String.append_assoc]
  simp (disch := exact opensNone_ofList storeOpenings_eq rfl) only [opens_line, true_and,
    and_true]
  and_intros <;> exact opens_ofList storeOpenings_eq rfl

theorem silent_storeOperations : Silent storeOpenings storeOperations := by
  rw [storeOperations]
  repeat refine silent_cons.mpr ⟨opens_ofList storeOpenings_eq rfl, ?_⟩
  exact silent_nil

/-! ## Where modules lead -/

/-- The paths of the files of a blueprint. -/
def paths (b : Blueprint) : List String :=
  fixedPaths ++ b.groups.flatMap fun g => groupPaths g.slug

theorem mem_keys_files {p : String} (hfs : files b = .ok fs) (hp : p ∈ paths b) :
    p ∈ keys fs := by
  rw [keys_files hfs]
  refine List.mem_append.mpr ((List.mem_append.mp hp).imp id fun hp => ?_)
  obtain ⟨g, hg, hp⟩ := List.mem_flatMap.mp hp
  exact List.mem_flatMap.mpr ⟨g.slug, List.mem_eraseDups.mpr (List.mem_map_of_mem hg), hp⟩

theorem mem_paths (hg : g ∈ b.groups) {p : String} (hp : p ∈ groupPaths g.slug) : p ∈ paths b :=
  List.mem_append_right _ (List.mem_flatMap.mpr ⟨g, hg, hp⟩)

/-- A slug has none of the other characters. -/
theorem notMem_slug (hslug : IsSlug g.slug) {c : Char} (hc : isSlugChar c = false) (hne : c ≠ '-') :
    c ∉ g.slug.toList := by
  intro hmem
  rcases hslug.singleHyphens.chars c hmem with h | h
  · rw [h] at hc
    cases hc
  · exact hne h

theorem slash_notMem_slug (hslug : IsSlug g.slug) : '/' ∉ g.slug.toList :=
  notMem_slug hslug (by decide) (by decide)

theorem quote_notMem_slug (hslug : IsSlug g.slug) : '\'' ∉ g.slug.toList :=
  notMem_slug hslug (by decide) (by decide)

theorem directory_clientPath (hslug : IsSlug g.slug) :
    directory (clientPath g) = ["api".toList] := by
  have hpath : (clientPath g).toList = "api".toList ++ '/' :: (g.slug ++ "-api.ts").toList := by
    simp [clientPath]
  exact directory_of_names hpath (by decide) (by simp [slash_notMem_slug hslug])

theorem directory_storePath (hslug : IsSlug g.slug) :
    directory (storePath g) = ["db".toList] := by
  have hpath : (storePath g).toList = "db".toList ++ '/' :: (g.slug ++ "-db.ts").toList := by
    simp [storePath]
  exact directory_of_names hpath (by decide) (by simp [slash_notMem_slug hslug])

theorem directory_apiIndex : directory "api/index.ts" = ["api".toList] := by decide

theorem directory_dbIndex : directory "db/index.ts" = ["db".toList] := by decide

/-- A module beside the file. -/
theorem target_beside {dir x : String} (hdir : directory path = [dir.toList])
    (hx : '/' ∉ x.toList) (hc : '-' ∈ x.toList) : target path ("./" ++ x) = dir ++ "/" ++ x := by
  have hm : ("./" ++ x).toList = Text.joinWith ['/'] [['.'], x.toList] := by
    rw [String.toList_append]
    rfl
  rw [target, hdir, targetFrom_of_names (by simp) (by simpa using hx) hm, List.foldl_cons,
    List.foldl_cons, List.foldl_nil, enter_here, enter_of_mem hc (by decide),
    ← String.toList_inj, String.toList_ofList, String.toList_append, String.toList_append]
  rfl

/-- The store of a group, seen from its client. -/
theorem target_store (hslug : IsSlug g.slug) :
    target (clientPath g) ("../db/" ++ g.slug ++ "-db") = "db/" ++ g.slug ++ "-db" := by
  have hm : ("../db/" ++ g.slug ++ "-db").toList =
      Text.joinWith ['/'] [['.', '.'], ['d', 'b'], (g.slug ++ "-db").toList] := by
    simp [Text.joinWith]
  have hc : '-' ∈ (g.slug ++ "-db").toList := by simp
  have hd : 'd' ∈ ['d', 'b'] := List.mem_cons_self
  -- one step up from the directory of the clients, then down to that of the stores
  rw [target, directory_clientPath hslug,
    targetFrom_of_names (by simp) (by simp [slash_notMem_slug hslug]) hm, List.foldl_cons,
    List.foldl_cons, List.foldl_cons, List.foldl_nil, enter_up, enter_of_mem hd (by decide),
    enter_of_mem hc (by decide), ← String.toList_inj, String.toList_ofList]
  simp [Text.joinWith]

/-! ## What lines refer to -/

/-- The modules of some lines are found from the file at a path. -/
def Found (b : Blueprint) (path : String) (lines : List String) : Prop :=
  ∀ line ∈ lines, ∀ m ∈ moduleOf? line, Resolves (paths b) path m

theorem found_nil : Found b path [] := List.forall_mem_nil _

theorem found_append :
    Found b path (lines ++ others) ↔ Found b path lines ∧ Found b path others :=
  List.forall_mem_append

/-- The one module of a line. -/
theorem found_line (hm : moduleOf? line = some m) (h : Resolves (paths b) path m) :
    ∀ n ∈ moduleOf? line, Resolves (paths b) path n := by
  intro n hn
  rw [hm, Option.mem_some_iff] at hn
  exact hn ▸ h

theorem found_cons (hm : moduleOf? line = some m) (h : Resolves (paths b) path m)
    (hlines : Found b path lines) : Found b path (line :: lines) :=
  List.forall_mem_cons.mpr ⟨found_line hm h, hlines⟩

/-- A line without a module. -/
theorem found_cons_of_none (hm : moduleOf? line = none) (hlines : Found b path lines) :
    Found b path (line :: lines) := by
  refine List.forall_mem_cons.mpr ⟨fun n hn => ?_, hlines⟩
  rw [hm] at hn
  cases hn

theorem Silent.found (h : Silent moduleOpenings lines) : Found b path lines := by
  intro line hline m hm
  rw [moduleOf?, quotedIn?_of_not_opens (h line hline)] at hm
  cases hm

/-- Lines that are read once and for all. -/
theorem found_of_fixed (h : ∀ line ∈ lines, ∀ m ∈ moduleOf? line, Resolves fixedPaths path m) :
    Found b path lines :=
  fun line hline m hm => (h line hline m hm).mono fun _ hp => List.mem_append_left _ hp

/-- A fixed file, seen from a directory. -/
theorem resolves_fixed {dir : List (List Char)} (hdir : directory path = dir)
    (hrelative : "./".toList <+: m.toList ∨ "../".toList <+: m.toList)
    (hfound : targetFrom dir m ++ ".ts" ∈ fixedPaths ∨ targetFrom dir m ++ "/index.ts" ∈ fixedPaths) :
    Resolves (paths b) path m := by
  refine ⟨hrelative, ?_⟩
  rw [target, hdir]
  exact hfound.imp (List.mem_append_left _) (List.mem_append_left _)

/-- A line of an index file exports from the module beside it. -/
theorem moduleOf?_exportLine (hstem : '\'' ∉ n.toList) :
    moduleOf? (exportLine n) = some ("./" ++ n) := by
  dsimp only [exportLine]
  refine quotedIn?_eq_some "export * from ".toList ";".toList ?_ ?_ ?_ ?_
  · rw [String.append_assoc]
    exact opens_of_ofList moduleOpenings_eq rfl
  · simp
  · decide
  · simpa using hstem

/-- A client imports its store. -/
theorem moduleOf?_storeImport (hkey : IsCanonical g.key.toList) (hslug : IsSlug g.slug) :
    moduleOf? ("import \x7b " ++ g.dbClass ++ " \x7d from '../db/" ++ g.slug ++ "-db';") =
      some ("../db/" ++ g.slug ++ "-db") := by
  have hquote : '\'' ∉ g.key.toList := fun h => absurd (hkey.alphanumeric _ h) (by decide)
  refine quotedIn?_eq_some ("import \x7b " ++ g.dbClass ++ " \x7d from ").toList ";".toList
    ?_ ?_ ?_ ?_
  · simp only [String.append_assoc]
    exact opens_of_ofList moduleOpenings_eq rfl
  · simp
  · simp [Group.dbClass, hquote]
  · simp [quote_notMem_slug hslug]

/-- The instance of a client is exported from no module. -/
theorem moduleOf?_instanceExport (g : Group) :
    moduleOf? ("export \x7b " ++ g.instanceName ++ " \x7d;") = none := by
  have hquote : '\'' ∉ g.instanceName.toList := by
    intro h
    rw [Group.instanceName, String.toList_append, List.mem_append] at h
    exact h.elim (fun h => absurd (isAlphanumeric_camel g.key _ h) (by decide)) (by decide)
  rw [moduleOf?, quotedIn?, firstQuoted?_of_notMem (by simp [hquote])]
  exact ite_self none

/-! ## File by file -/

theorem found_indexLines : Found b "index.ts" indexLines :=
  found_of_fixed (by decide)

theorem found_typesIndexLines : Found b "types/index.ts" typesIndexLines :=
  found_of_fixed (by decide)

/-- A module beside an index file, of which the file is that of a group. -/
theorem resolves_beside {stem : String} (dir : String) (hg : g ∈ b.groups) (hslug : IsSlug g.slug)
    (hdir : directory path = [dir.toList]) (hstem : '/' ∉ stem.toList) (hc : '-' ∈ stem.toList)
    (hpath : dir ++ "/" ++ (g.slug ++ stem) ++ ".ts" ∈ groupPaths g.slug) :
    Resolves (paths b) path ("./" ++ (g.slug ++ stem)) := by
  refine ⟨.inl ?_, .inl ?_⟩
  · rw [String.toList_append]
    exact List.prefix_append _ _
  · rw [target_beside hdir (by simp [slash_notMem_slug hslug, hstem]) (by simp [hc])]
    exact mem_paths hg hpath

theorem clientPath_eq (g : Group) : "api" ++ "/" ++ (g.slug ++ "-api") ++ ".ts" = clientPath g := by
  simp [clientPath, ← String.toList_inj]

theorem storePath_eq (g : Group) : "db" ++ "/" ++ (g.slug ++ "-db") ++ ".ts" = storePath g := by
  simp [storePath, ← String.toList_inj]

theorem found_apiIndexLines (hslug : ∀ g ∈ b.groups, IsSlug g.slug) :
    Found b "api/index.ts" (apiIndexLines b.groups) := by
  refine found_cons_of_none (quotedIn?_of_not_opens (opens_ofList moduleOpenings_eq rfl)) ?_
  refine List.forall_mem_map.mpr fun g hg => found_line (moduleOf?_exportLine ?_) ?_
  · simp [quote_notMem_slug (hslug g hg)]
  · refine resolves_beside "api" hg (hslug g hg) directory_apiIndex (by decide) (by decide) ?_
    rw [clientPath_eq]
    exact List.mem_cons_self

theorem found_dbIndexLines (hslug : ∀ g ∈ b.groups, IsSlug g.slug) :
    Found b "db/index.ts" (dbIndexLines b.groups) := by
  have hsetup : Resolves (paths b) "db/index.ts" ("./" ++ "db-setup") :=
    resolves_fixed directory_dbIndex (by decide) (by decide)
  refine found_cons_of_none (quotedIn?_of_not_opens (opens_ofList moduleOpenings_eq rfl)) ?_
  refine found_cons (moduleOf?_exportLine (by decide)) hsetup ?_
  refine List.forall_mem_map.mpr fun g hg => found_line (moduleOf?_exportLine ?_) ?_
  · simp [quote_notMem_slug (hslug g hg)]
  · refine resolves_beside "db" hg (hslug g hg) directory_dbIndex (by decide) (by decide) ?_
    rw [storePath_eq]
    exact List.mem_cons_of_mem _ List.mem_cons_self

theorem found_setupLines : Found b "db/db-setup.ts" (setupLines b.groups) := by
  have hstores : Silent moduleOpenings (b.groups.map storeLine) := by
    refine List.forall_mem_map.mpr fun g _ => ?_
    rw [storeLine, String.append_assoc]
    exact opens_line (opensNone_ofList moduleOpenings_eq rfl)
  rw [setupLines, found_append, found_append]
  exact ⟨⟨found_of_fixed (by decide), hstores.found⟩, silent_setupTail.found⟩

theorem found_clientLines (hg : g ∈ b.groups) (hkey : IsCanonical g.key.toList)
    (hslug : IsSlug g.slug) : Found b (clientPath g) (clientLines g) := by
  have hdir := directory_clientPath hslug
  have htypes : moduleOf? "import \x7b ApiResponse, ApiError \x7d from '../types';" =
      some "../types" := by decide
  have hconfig : moduleOf? "import \x7b defaultConfig \x7d from '../config/api-config';" =
      some "../config/api-config" := by decide
  have hstore : Resolves (paths b) (clientPath g) ("../db/" ++ g.slug ++ "-db") := by
    refine ⟨.inr ?_, .inl ?_⟩
    · simp
    · rw [target_store hslug, String.append_assoc]
      exact mem_paths hg (List.mem_cons_of_mem _ List.mem_cons_self)
  obtain ⟨hrest, htail⟩ := silent_append.mp (silent_client (g := g))
  -- after the comment the head imports the types, the store and the settings
  have hhead : Found b (clientPath g) (clientHead g) := by
    refine found_cons_of_none (quotedIn?_of_not_opens
      (opens_line (opensNone_ofList moduleOpenings_eq rfl))) ?_
    refine found_cons htypes (resolves_fixed hdir (by decide) (by decide)) ?_
    refine found_cons (moduleOf?_storeImport hkey hslug) hstore ?_
    exact found_cons hconfig (resolves_fixed hdir (by decide) (by decide)) hrest.found
  have hmethods : Silent moduleOpenings (g.routes.flatMap method) :=
    List.forall_mem_flatMap.mpr fun r _ => silent_method
  have hinstance : Found b (clientPath g) (instanceExports g) := by
    refine found_cons_of_none (quotedIn?_of_not_opens (opens_ofList moduleOpenings_eq rfl)) ?_
    refine found_cons_of_none (moduleOf?_instanceExport g) ?_
    refine found_cons_of_none (quotedIn?_of_not_opens ?_) found_nil
    rw [String.append_assoc]
    exact opens_line (opensNone_ofList moduleOpenings_eq rfl)
  rw [clientLines, found_append, found_append, found_append, found_append]
  exact ⟨⟨⟨⟨hhead, hmethods.found⟩, htail.found⟩, silent_boundFunctions.found⟩, hinstance⟩

/-! ## What the index files export -/

theorem prefix_exportLine (stem : String) :
    "export * from ".toList <+: (exportLine stem).toList := by
  have hopening : "export * from ".toList <+: "export * from './".toList := by decide
  dsimp only [exportLine]
  rw [String.append_assoc, String.toList_append]
  exact hopening.trans (List.prefix_append _ _)

theorem reexports_apiIndexLines {groups : List Group} (hg : g ∈ groups) (hslug : IsSlug g.slug) :
    Reexports "api/index.ts" (clientPath g) (apiIndexLines groups) := by
  refine ⟨_, List.mem_cons_of_mem _ (List.mem_map_of_mem hg), prefix_exportLine _, _,
    moduleOf?_exportLine ?_, ?_⟩
  · simp [quote_notMem_slug hslug]
  · rw [target_beside directory_apiIndex (by simp [slash_notMem_slug hslug]) (by simp),
      clientPath_eq]

theorem reexports_dbIndexLines {groups : List Group} (hg : g ∈ groups) (hslug : IsSlug g.slug) :
    Reexports "db/index.ts" (storePath g) (dbIndexLines groups) := by
  refine ⟨_, List.mem_cons_of_mem _ (List.mem_cons_of_mem _ (List.mem_map_of_mem hg)),
    prefix_exportLine _, _, moduleOf?_exportLine ?_, ?_⟩
  · simp [quote_notMem_slug hslug]
  · rw [target_beside directory_dbIndex (by simp [slash_notMem_slug hslug]) (by simp),
      storePath_eq]

/-! ## Stores -/

/-- Fewer openings are as silent. -/
theorem Silent.mono {others : List (List Char)} (h : Silent openings lines)
    (hsub : ∀ o ∈ others, o ∈ openings) : Silent others lines := by
  intro line hline
  rw [opens, List.any_eq_false]
  exact fun o ho => List.any_eq_false.mp (h line hline) o (hsub o ho)

/-- Silent lines name no store. -/
theorem Silent.filterMap (h : Silent [storeOpening] lines) : lines.filterMap storeOf? = [] :=
  List.filterMap_eq_nil_iff.mpr fun line hline => quotedIn?_of_not_opens (h line hline)

/-- The head of a store, by what it refers to: a module, and behind it the name of the store. -/
theorem storeHead_eq (g : Group) (records : String) : storeHead g records =
    (storeHead g records).take 9 ++ "\x7d from './db-setup';" ::
      (((storeHead g records).take 20).drop 10 ++
        ("  private readonly storeName = '" ++ g.slug ++ "';") :: (storeHead g records).drop 21) :=
  rfl

theorem found_storeLines (hslug : IsSlug g.slug) :
    Found b (storePath g) (storeLines g records) := by
  have hmono : ∀ {lines}, Silent storeOpenings lines → Silent moduleOpenings lines := fun h =>
    h.mono fun _ ho => List.mem_cons_of_mem _ ho
  -- of a list of imports over several lines only the last line names the module
  obtain ⟨hrest, hseeding⟩ := silent_append.mp (silent_store g records)
  obtain ⟨hbefore, hbehind⟩ := silent_append.mp hrest
  have himports : Found b (storePath g) ((storeHead g records).take 9) := by
    refine found_cons_of_none (quotedIn?_of_not_opens
      (opens_line (opensNone_ofList moduleOpenings_eq rfl))) ?_
    have hlist : moduleOf? "import \x7b" = none := by decide
    refine found_cons_of_none hlist (Silent.found ?_)
    repeat refine silent_cons.mpr ⟨opens_ofList moduleOpenings_eq rfl, ?_⟩
    exact silent_nil
  have hsetup : moduleOf? "\x7d from './db-setup';" = some "./db-setup" := by decide
  have hname : Silent moduleOpenings [("  private readonly storeName = '" ++ g.slug ++ "';")] := by
    rw [silent_cons, String.append_assoc]
    exact ⟨opens_line (opensNone_ofList moduleOpenings_eq rfl), silent_nil⟩
  have hhead : Found b (storePath g) (storeHead g records) := by
    rw [storeHead_eq]
    refine found_append.mpr ⟨himports, found_cons hsetup
      (resolves_fixed (directory_storePath hslug) (by decide) (by decide)) ?_⟩
    refine found_append.mpr ⟨(hmono hbefore).found, ?_⟩
    exact (silent_append.mpr ⟨hname, hmono hbehind⟩).found
  rw [storeLines, found_append, found_append]
  exact ⟨⟨hhead, (hmono silent_storeOperations).found⟩, (hmono hseeding).found⟩

/-- **A store file names one store**, that of its group. -/
theorem stores_storeLines (hslug : IsSlug g.slug) :
    (storeLines g records).filterMap storeOf? = [g.slug] := by
  have hopening : [storeOpening] = [_] := congrArg (fun o => [o]) storeOpening_eq
  have hmono : ∀ {lines}, Silent storeOpenings lines → Silent [storeOpening] lines := fun h =>
    h.mono fun o ho => List.mem_singleton.mp ho ▸ List.mem_cons_self
  obtain ⟨hrest, hseeding⟩ := silent_append.mp (silent_store g records)
  obtain ⟨hbefore, hbehind⟩ := silent_append.mp hrest
  have himports : Silent [storeOpening] ((storeHead g records).take 9) := by
    refine silent_cons.mpr ⟨opens_line (opensNone_ofList hopening rfl), ?_⟩
    repeat refine silent_cons.mpr ⟨opens_ofList hopening rfl, ?_⟩
    exact silent_nil
  have hsetup : storeOf? "\x7d from './db-setup';" = none :=
    quotedIn?_of_not_opens (opens_ofList hopening rfl)
  have hname : storeOf? ("  private readonly storeName = '" ++ g.slug ++ "';") = some g.slug := by
    refine quotedIn?_eq_some "  private readonly storeName = ".toList ";".toList ?_ ?_
      (by decide) (quote_notMem_slug hslug)
    · rw [String.append_assoc]
      exact opens_of_ofList hopening rfl
    · simp
  rw [storeLines, storeHead_eq, List.filterMap_append, List.filterMap_append,
    List.filterMap_append, List.filterMap_cons_none hsetup, List.filterMap_append,
    List.filterMap_cons_some hname, himports.filterMap, (hmono hbefore).filterMap,
    (hmono hbehind).filterMap, (hmono silent_storeOperations).filterMap,
    (hmono hseeding).filterMap]
  rfl

/-- What stands between two lines that occur once. -/
theorem between_eq {start stop : String} (hbefore : start ∉ lines) (hmiddle : stop ∉ others)
    (behind : List String) :
    ((lines ++ start :: (others ++ stop :: behind)).dropWhile (· ≠ start)).tail.takeWhile
      (· ≠ stop) = others := by
  rw [List.dropWhile_append_of_pos, List.dropWhile_cons_of_neg (by simp), List.tail_cons,
    List.takeWhile_append_of_pos, List.takeWhile_cons_of_neg (by simp), List.append_nil]
  · intro line hline
    exact decide_eq_true fun h => hmiddle (h ▸ hline)
  · intro line hline
    exact decide_eq_true fun h => hbefore (h ▸ hline)

theorem setupLines_eq (groups : List Group) : setupLines groups =
    setupHead.dropLast ++ "export const STORE_NAMES = [" ::
      (groups.map storeLine ++ "];" :: setupTail.tail) :=
  List.append_assoc _ _ _

/-- **The database is opened with the stores of the groups.** -/
theorem listedStores_setupLines {groups : List Group} (hslug : ∀ g ∈ groups, IsSlug g.slug) :
    listedStores (setupLines groups) = groups.map Group.slug := by
  have hstart : "export const STORE_NAMES = [" ∉ setupHead.dropLast := by decide
  have hstop : "];" ∉ groups.map storeLine := by
    rw [List.mem_map]
    rintro ⟨g, -, h⟩
    rw [storeLine, ← String.toList_inj] at h
    simp at h
  rw [listedStores, setupLines_eq, between_eq hstart hstop, List.filterMap_map,
    ← List.filterMap_eq_map]
  refine List.filterMap_congr fun g hg => ?_
  have hline : (storeLine g).toList =
      "  ".toList ++ '\'' :: (g.slug.toList ++ '\'' :: ",".toList) := by
    simp [storeLine]
  rw [Function.comp_apply, Function.comp_apply, hline,
    firstQuoted?_eq_some (by decide) (quote_notMem_slug (hslug g hg))]

/-! ## All files -/

/-- The fixed files, with their lines. -/
theorem linesOf_fixedFiles {fixed : List (String × String)} (h : fixedFiles b = .ok fixed) :
    ∀ e ∈ fixed, ∃ lines, LinesOf b e.1 lines ∧ e.2 = unlines lines := by
  obtain ⟨text, htext, h⟩ := of_bind_ok h
  obtain ⟨delay, hdelay, htext⟩ := of_bind_ok htext
  cases h
  cases htext
  simp only [List.forall_mem_cons]
  exact ⟨⟨_, .index, rfl⟩, ⟨_, .config hdelay, rfl⟩, ⟨_, .typesIndex, rfl⟩, ⟨_, .types, rfl⟩,
    ⟨_, .apiIndex, rfl⟩, ⟨_, .dbIndex, rfl⟩, ⟨_, .setup, rfl⟩, List.forall_mem_nil _⟩

/-- The files of a group, with their lines. -/
theorem linesOf_groupFiles {text : String} (hg : g ∈ b.groups) (h : storeFile g = .ok text) :
    ∀ e ∈ groupFiles (g, text), ∃ lines, LinesOf b e.1 lines ∧ e.2 = unlines lines := by
  obtain ⟨records, hrecords, h⟩ := of_bind_ok h
  have htext : unlines (storeLines g records) = text := Except.ok.inj h
  simp only [groupFiles, List.forall_mem_cons, ← htext]
  exact ⟨⟨_, .client hg, rfl⟩, ⟨_, .store hg hrecords, rfl⟩, List.forall_mem_nil _⟩

/-- Every file is made of the lines of its path. -/
theorem linesOf_files (hfs : files b = .ok fs) :
    ∀ e ∈ fs, ∃ lines, LinesOf b e.1 lines ∧ e.2 = unlines lines := by
  obtain ⟨fixed, stored, hfixed, hgroups, hstored, rfl⟩ := of_files hfs
  have hnodup : (keys fixed).Nodup := by
    rw [keys_fixedFiles hfixed]
    decide
  -- groups with one slug write over each other, but what stays is the file of some group
  intro e he
  rcases mem_or_mem_of_mem_merge hnodup he with he | he
  · obtain ⟨p, hp, he⟩ := List.mem_flatMap.mp he
    exact linesOf_groupFiles (hgroups ▸ List.mem_map_of_mem hp) (hstored p hp) e he
  · exact linesOf_fixedFiles hfixed e he

/-- The fixed files are never written over. -/
theorem mem_files_of_fixed {fixed : List (String × String)} (hfs : files b = .ok fs)
    (hfixed : fixedFiles b = .ok fixed) : ∀ e ∈ fixed, e ∈ fs := by
  obtain ⟨_, stored, h, -, -, rfl⟩ := of_files hfs
  cases hfixed.symm.trans h
  have hkeys := keys_fixedFiles hfixed
  intro e he
  refine mem_merge_of_notMem (hkeys ▸ by decide) he fun hgroup => ?_
  rw [keys_flatMap_groupFiles] at hgroup
  obtain ⟨slug, -, hslug⟩ := List.mem_flatMap.mp hgroup
  exact notMem_fixedPaths hslug (hkeys ▸ List.mem_map_of_mem he)

/-- What the lines of any file refer to is found among all files. -/
theorem LinesOf.resolves (hlines : LinesOf b path lines)
    (h : (s.blueprint config seed).outcome = (.ok b, log)) (hfs : files b = .ok fs) :
    ∀ line ∈ lines, ∀ m ∈ moduleOf? line, Resolves (keys fs) path m := by
  have hslug : ∀ g ∈ b.groups, IsSlug g.slug := fun g hg => Blueprint.isSlug_of_mem_groups h hg
  have hfound : Found b path lines := by
    cases hlines with
    | index => exact found_indexLines
    | config _ => exact silent_configLines.found
    | typesIndex => exact found_typesIndexLines
    | types => exact silent_typesLines.found
    | apiIndex => exact found_apiIndexLines hslug
    | dbIndex => exact found_dbIndexLines hslug
    | setup => exact found_setupLines
    | client hg =>
      exact found_clientLines hg (Blueprint.isCanonical_of_mem_groups h hg) (hslug _ hg)
    | store hg _ => exact found_storeLines (hslug _ hg)
  exact fun line hline m hm => (hfound line hline m hm).mono fun _ => mem_keys_files hfs

/-- **What the files refer to is there.** Every file has its lines, and a module that one of them
imports or exports from is one of the files. The store of a group names one store, which is among
those that the database is opened with, and the index files export the modules of the group. -/
theorem references_found (h : (s.blueprint config seed).outcome = (.ok b, log))
    (hfs : files b = .ok fs) :
    (∀ e ∈ fs, ∃ lines, LinesOf b e.1 lines ∧ e.2 = unlines lines ∧
      ∀ line ∈ lines, ∀ m ∈ moduleOf? line, Resolves (keys fs) e.1 m) ∧
    ("api/index.ts", unlines (apiIndexLines b.groups)) ∈ fs ∧
    ("db/index.ts", unlines (dbIndexLines b.groups)) ∈ fs ∧
    ("db/db-setup.ts", unlines (setupLines b.groups)) ∈ fs ∧
    ∀ g ∈ b.groups, (∀ records, (storeLines g records).filterMap storeOf? = [g.slug]) ∧
      g.slug ∈ listedStores (setupLines b.groups) ∧
      Reexports "api/index.ts" (clientPath g) (apiIndexLines b.groups) ∧
      Reexports "db/index.ts" (storePath g) (dbIndexLines b.groups) := by
  have hslug : ∀ g ∈ b.groups, IsSlug g.slug := fun g hg => Blueprint.isSlug_of_mem_groups h hg
  obtain ⟨fixed, -, hfixed, -⟩ := of_files hfs
  obtain ⟨text, -, hmade⟩ := of_bind_ok hfixed
  have hmem : ∀ e ∈ fixed, e ∈ fs := mem_files_of_fixed hfs hfixed
  cases hmade
  simp only [List.forall_mem_cons] at hmem
  obtain ⟨-, -, -, -, hapi, hdb, hsetup, -⟩ := hmem
  refine ⟨fun e he => ?_, hapi, hdb, hsetup, fun g hg => ⟨fun _ => stores_storeLines (hslug g hg),
    ?_, reexports_apiIndexLines hg (hslug g hg), reexports_dbIndexLines hg (hslug g hg)⟩⟩
  · obtain ⟨lines, hlines, htext⟩ := linesOf_files hfs e he
    exact ⟨lines, hlines, htext, hlines.resolves h hfs⟩
  · rw [listedStores_setupLines hslug]
    exact List.mem_map_of_mem hg

/-- Two groups with one slug share their files, and what refers to them. -/
theorem shared_slug_found : ∃ b log fs,
    ((tagged ["API", "Api", "Pets"]).blueprint none none).outcome = (.ok b, log) ∧
    files b = .ok fs ∧ b.groups.map Group.slug = ["api", "api", "pets"] ∧
    (∀ e ∈ fs, ∃ lines, LinesOf b e.1 lines ∧ e.2 = unlines lines ∧
      ∀ line ∈ lines, ∀ m ∈ moduleOf? line, Resolves (keys fs) e.1 m) ∧
    ∀ g ∈ b.groups, (∀ records, (storeLines g records).filterMap storeOf? = [g.slug]) ∧
      g.slug ∈ listedStores (setupLines b.groups) ∧
      Reexports "api/index.ts" (clientPath g) (apiIndexLines b.groups) ∧
      Reexports "db/index.ts" (storePath g) (dbIndexLines b.groups) := by
  have hmade : ((tagged ["API", "Api", "Pets"]).blueprint none none).outcome.1.toOption.bind
      (fun b => (files b).toOption.map fun _ => b.groups.map Group.slug) =
      some ["api", "api", "pets"] := by decide +kernel
  obtain ⟨b, log, fs, houtcome, hfs, hslugs⟩ := of_made hmade
  obtain ⟨hfound, -, -, -, hgroups⟩ := references_found houtcome hfs
  exact ⟨b, log, fs, houtcome, hfs, hslugs, hfound, hgroups⟩

end Emit

end ApiMock
