import ApiMock.Emit.Files
import ApiMock.Proofs.Blueprint.Parts
import ApiMock.Proofs.Naming.Passes
/-!
# Emit — the paths of the files

Seven paths are always written. A group adds two, which depend on nothing
but its slug: groups with one slug write to the same paths, and groups
with different slugs never do. No group writes one of the seven. Whatever
the tags are, no path leaves the directories of the clients and the stores.
-/

namespace ApiMock

namespace Emit

open Entries Naming Sequence

variable {s : Spec} {config : Option Config} {seed : Option Seed} {b : Blueprint}
  {log : List LogEntry} {fs : List (String × String)} {g : Group}

/-- The paths of the files that do not belong to a group. -/
def fixedPaths : List String :=
  ["index.ts", "config/api-config.ts", "types/index.ts", "types/index.types.ts", "api/index.ts",
    "db/index.ts", "db/db-setup.ts"]

/-- The paths of the files of the groups with this slug. -/
def groupPaths (slug : String) : List String :=
  ["api/" ++ slug ++ "-api.ts", "db/" ++ slug ++ "-db.ts"]

/-- The files of a group, given the text of its store. -/
def groupFiles (e : Group × String) : List (String × String) :=
  [(clientPath e.1, clientFile e.1), (storePath e.1, e.2)]

/-! ## The paths of one group -/

theorem clientPath_injective {slug other : String}
    (h : "api/" ++ slug ++ "-api.ts" = "api/" ++ other ++ "-api.ts") : slug = other := by
  simpa [← String.toList_inj] using h

theorem storePath_injective {slug other : String}
    (h : "db/" ++ slug ++ "-db.ts" = "db/" ++ other ++ "-db.ts") : slug = other := by
  simpa [← String.toList_inj] using h

/-- Clients and stores are in different directories. -/
theorem clientPath_ne_storePath {slug other : String} :
    "api/" ++ slug ++ "-api.ts" ≠ "db/" ++ other ++ "-db.ts" := by
  intro h
  rw [← String.toList_inj] at h
  simp at h

/-- The two paths of a group are different. -/
theorem nodup_groupPaths (slug : String) : (groupPaths slug).Nodup := by
  rw [groupPaths, List.nodup_cons, List.mem_singleton]
  exact ⟨clientPath_ne_storePath, List.nodup_singleton _⟩

/-- A path of a group tells its slug. -/
theorem slug_eq_of_mem_groupPaths {slug other p : String} (h : p ∈ groupPaths slug)
    (h' : p ∈ groupPaths other) : slug = other := by
  simp only [groupPaths, List.mem_cons, List.not_mem_nil, or_false] at h h'
  rcases h with rfl | rfl <;> rcases h' with h' | h'
  · exact clientPath_injective h'
  · exact absurd h' clientPath_ne_storePath
  · exact absurd h'.symm clientPath_ne_storePath
  · exact storePath_injective h'

/-- How the path of a client or of a store ends. -/
theorem isSuffix_of_mem_groupPaths {slug p : String} (h : p ∈ groupPaths slug) :
    "-api.ts".toList <:+ p.toList ∨ "-db.ts".toList <:+ p.toList := by
  simp only [groupPaths, List.mem_cons, List.not_mem_nil, or_false] at h
  rcases h with rfl | rfl
  · exact .inl ⟨("api/" ++ slug).toList, String.toList_append.symm⟩
  · exact .inr ⟨("db/" ++ slug).toList, String.toList_append.symm⟩

/-- **No group writes one of the fixed files**, whatever its slug is. -/
theorem notMem_fixedPaths {slug p : String} (h : p ∈ groupPaths slug) : p ∉ fixedPaths := by
  have hends : ∀ q ∈ fixedPaths,
      ¬ ("-api.ts".toList <:+ q.toList ∨ "-db.ts".toList <:+ q.toList) := by decide
  exact fun hp => hends p hp (isSuffix_of_mem_groupPaths h)

/-! ## All files -/

/-- A group writes its client and its store. -/
theorem addGroup_eq {text : String} (h : storeFile g = .ok text) :
    addGroup fs g = .ok (merge fs (groupFiles (g, text))) := by
  simp only [addGroup, h, merge, groupFiles, List.foldl_cons, List.foldl_nil, bind, Except.bind,
    pure, Except.pure]

/-- Groups that all have a store add their files. -/
theorem foldlM_addGroup_isOk {groups : List Group} (fixed : List (String × String))
    (h : ∀ g ∈ groups, ∃ text, storeFile g = .ok text) :
    ∃ fs, groups.foldlM addGroup fixed = .ok fs := by
  refine (Gives.foldlM (Q := fun _ => True) trivial fun g hg fs _ => ?_).imp fun _ h => h.1
  obtain ⟨text, htext⟩ := h g hg
  exact ⟨_, addGroup_eq htext, trivial⟩

theorem keys_fixedFiles {fixed : List (String × String)} (h : fixedFiles b = .ok fixed) :
    keys fixed = fixedPaths := by
  obtain ⟨config, -, h⟩ := of_bind_ok h
  cases h
  rfl

/-- The groups write one after the other. -/
theorem of_foldlM_addGroup {groups : List Group} {fixed : List (String × String)}
    (h : groups.foldlM addGroup fixed = .ok fs) :
    ∃ stored : List (Group × String), stored.map Prod.fst = groups ∧
      (∀ e ∈ stored, storeFile e.1 = .ok e.2) ∧ fs = merge fixed (stored.flatMap groupFiles) := by
  induction groups generalizing fixed with
  | nil =>
    cases h
    exact ⟨[], rfl, by simp, rfl⟩
  | cons g groups ih =>
    rw [List.foldlM_cons] at h
    obtain ⟨added, hadded, h⟩ := of_bind_ok h
    obtain ⟨text, htext, -⟩ := of_bind_ok hadded
    rw [addGroup_eq htext] at hadded
    cases hadded
    obtain ⟨stored, rfl, hstored, rfl⟩ := ih h
    refine ⟨(g, text) :: stored, rfl, ?_, ?_⟩
    · rintro e (_ | ⟨_, he⟩)
      · exact htext
      · exact hstored e he
    · simp [merge]

/-- All files: the fixed ones, then those of the groups in their order. -/
theorem of_files (h : files b = .ok fs) :
    ∃ (fixed : List (String × String)) (stored : List (Group × String)),
      fixedFiles b = .ok fixed ∧ stored.map Prod.fst = b.groups ∧
      (∀ e ∈ stored, storeFile e.1 = .ok e.2) ∧ fs = merge fixed (stored.flatMap groupFiles) := by
  obtain ⟨fixed, hfixed, h⟩ := of_bind_ok h
  obtain ⟨stored, hgroups, hstored, rfl⟩ := of_foldlM_addGroup h
  exact ⟨fixed, stored, hfixed, hgroups, hstored, rfl⟩

theorem keys_flatMap_groupFiles (stored : List (Group × String)) :
    keys (stored.flatMap groupFiles) =
      ((stored.map Prod.fst).map Group.slug).flatMap groupPaths := by
  rw [keys, List.map_flatMap, List.flatMap_map, List.flatMap_map]
  rfl

/-- **The paths that are written**: the fixed ones, and two for every slug. -/
theorem keys_files (h : files b = .ok fs) :
    keys fs = fixedPaths ++ (b.groups.map Group.slug).eraseDups.flatMap groupPaths := by
  obtain ⟨fixed, stored, hfiles, hgroups, -, rfl⟩ := of_files h
  have hfixed := keys_fixedFiles hfiles
  have hnodup : fixedPaths.Nodup := by decide
  have hpaths : ((b.groups.map Group.slug).flatMap groupPaths).eraseDups =
      (b.groups.map Group.slug).eraseDups.flatMap groupPaths :=
    Distinct.eraseDups_flatMap nodup_groupPaths
      (fun _ _ _ h h' => slug_eq_of_mem_groupPaths h h') _
  have hnew : ∀ p ∈ (b.groups.map Group.slug).flatMap groupPaths, p ∉ fixedPaths := by
    intro p hp
    obtain ⟨slug, -, hp⟩ := List.mem_flatMap.mp hp
    exact notMem_fixedPaths hp
  -- so the fixed paths stay in front, and behind them a path stands where its slug first is
  rw [keys_merge (hfixed ▸ hnodup), hfixed, keys_flatMap_groupFiles, hgroups,
    List.eraseDups_append, Distinct.removeAll_eq_self hnew, Distinct.eraseDups_of_nodup hnodup,
    hpaths]

/-- There are seven files and two for every slug. -/
theorem length_files (h : files b = .ok fs) :
    fs.length = 7 + 2 * (b.groups.map Group.slug).eraseDups.length := by
  have hlength : fs.length = (keys fs).length := by rw [keys, List.length_map]
  have hpaths : ∀ slugs : List String, (slugs.flatMap groupPaths).length = 2 * slugs.length := by
    intro slugs
    induction slugs with
    | nil => rfl
    | cons slug slugs ih =>
      rw [List.flatMap_cons, List.length_append, ih, List.length_cons]
      simp [groupPaths]
      omega
  rw [hlength, keys_files h, List.length_append, hpaths]
  rfl

/-! ## Where files are put -/

/-- **No path leaves the directories.** A path is one of the seven, or that
of the client or the store of a group. A group has a slug, whatever its
tags are: what the two passes of hyphens make of its name, in small letters.
Its paths are none of the seven. -/
theorem paths_of_slugs (h : (s.blueprint config seed).outcome = (.ok b, log))
    (hfs : files b = .ok fs) :
    (∀ p ∈ keys fs, p ∈ fixedPaths ∨ ∃ g ∈ b.groups, p ∈ groupPaths g.slug) ∧
      ∀ g ∈ b.groups, IsSlug g.slug ∧ SingleHyphens g.slug.toList ∧
        (∃ inner out, Substituted acronymMatch g.key.toList inner ∧
          Substituted boundaryMatch inner out ∧ g.slug.toList = out.map Char.toLower) ∧
        ∀ p ∈ groupPaths g.slug, p ∉ fixedPaths := by
  constructor
  · intro p hp
    rw [keys_files hfs, List.mem_append] at hp
    refine hp.imp id fun hp => ?_
    obtain ⟨slug, hslug, hp⟩ := List.mem_flatMap.mp hp
    obtain ⟨g, hg, rfl⟩ := List.mem_map.mp (List.mem_eraseDups.mp hslug)
    exact ⟨g, hg, hp⟩
  · intro g hg
    have hslug : IsSlug g.slug := Blueprint.isSlug_of_mem_groups h hg
    exact ⟨hslug, hslug.singleHyphens, (Blueprint.isCanonical_of_mem_groups h hg).kebab_passes,
      fun p hp => notMem_fixedPaths hp⟩

/-- What is asked of a blueprint and its files is known once both are made. -/
theorem of_made {α : Type} {f : Blueprint → List (String × String) → α} {a : α}
    (h : (s.blueprint config seed).outcome.1.toOption.bind
      (fun b => (files b).toOption.map (f b)) = some a) :
    ∃ b log fs, (s.blueprint config seed).outcome = (.ok b, log) ∧ files b = .ok fs ∧
      f b fs = a := by
  obtain ⟨b, hb, h⟩ := of_toOption_bind h
  obtain ⟨fs, hfs, h⟩ := of_toOption_map h
  exact ⟨b, _, fs, Prod.ext hb rfl, hfs, h⟩

/-- An API with an operation for each of some tags. -/
def tagged (tags : List String) : Spec where
  info := ⟨"Tagged", "1", none⟩
  servers := []
  operations := tags.map fun tag =>
    ⟨"/items", "GET", "listItems", true, none, none, [], none, [⟨"200", "ok", []⟩], [tag]⟩
  schemas := []

/-- An API with this title and one operation, with this summary and at this path. -/
def placed (title summary path : String) : Spec where
  info := ⟨title, "1", none⟩
  servers := []
  operations :=
    [⟨path, "GET", "listItems", true, some summary, none, [], none, [⟨"200", "ok", []⟩], []⟩]
  schemas := []

/-- It comes to a blueprint with one route. -/
theorem exists_placed (title summary path : String) : ∃ b log,
    ((placed title summary path).blueprint none none).outcome = (.ok b, log) ∧
      b.info = ⟨title, "1", none⟩ ∧
      ∃ g r, b.groups = [g] ∧ g.routes = [r] ∧ r.method = "GET" ∧ r.path = path := by
  have hmethod : upper "GET" = "GET" := by decide +kernel
  exact ⟨_, _, rfl, rfl, _, _, rfl, rfl, hmethod, rfl⟩

/-- A tag that is a path, and one without a letter or digit. -/
theorem path_tags_stay : ∃ b log fs,
    ((tagged ["../etc/passwd", "./"]).blueprint none none).outcome = (.ok b, log) ∧
      files b = .ok fs ∧ b.groups.map Group.slug = ["etc-passwd", "default"] ∧
      (∀ p ∈ keys fs, p ∈ fixedPaths ∨ ∃ g ∈ b.groups, p ∈ groupPaths g.slug) ∧
      ∀ g ∈ b.groups, IsSlug g.slug ∧ SingleHyphens g.slug.toList ∧
        (∃ inner out, Substituted acronymMatch g.key.toList inner ∧
          Substituted boundaryMatch inner out ∧ g.slug.toList = out.map Char.toLower) ∧
        ∀ p ∈ groupPaths g.slug, p ∉ fixedPaths := by
  have hmade : ((tagged ["../etc/passwd", "./"]).blueprint none none).outcome.1.toOption.bind
      (fun b => (files b).toOption.map fun _ => b.groups.map Group.slug) =
      some ["etc-passwd", "default"] := by decide +kernel
  obtain ⟨b, log, fs, houtcome, hfs, hslugs⟩ := of_made hmade
  exact ⟨b, log, fs, houtcome, hfs, hslugs, paths_of_slugs houtcome hfs⟩

end Emit

end ApiMock
