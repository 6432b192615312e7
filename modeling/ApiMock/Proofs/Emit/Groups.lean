import ApiMock.Proofs.Emit.Paths
/-!
# Emit — the files of the groups

Groups with one slug share their paths: of what is written to a path the
last counts, so the client and the store of the earlier group are gone.
Every group has its files exactly if the slugs are distinct. They are as
long as no name of a group has two capitals side by side.
-/

namespace ApiMock

namespace Emit

open Entries Naming Sequence

variable {s : Spec} {config : Option Config} {seed : Option Seed} {b : Blueprint}
  {log : List LogEntry} {fs : List (String × String)} {g : Group}

/-- The client and the store of a group are among some files. -/
structure Holds (fs : List (String × String)) (g : Group) : Prop where
  client : fs.lookup (clientPath g) = some (clientFile g)
  store : ∃ text, storeFile g = .ok text ∧ fs.lookup (storePath g) = some text

/-! ## Which files a group has -/

/-- **A group has its files** if no later group has its slug. -/
theorem holds_of_last (h : files b = .ok fs) {before after : List Group}
    (hgroups : b.groups = before ++ g :: after) (hlast : g.slug ∉ after.map Group.slug) :
    Holds fs g := by
  obtain ⟨fixed, stored, -, hstored, htexts, rfl⟩ := of_files h
  rw [hgroups] at hstored
  obtain ⟨earlier, others, rfl, -, hothers⟩ := List.map_eq_append_iff.mp hstored
  obtain ⟨⟨g, text⟩, later, rfl, rfl, hlater⟩ := List.map_eq_cons_iff.mp hothers
  -- a path tells its slug, and no later group has this one
  have hnew : ∀ p ∈ groupPaths g.slug, p ∉ keys (later.flatMap groupFiles) := by
    intro p hp hin
    rw [keys_flatMap_groupFiles, hlater] at hin
    obtain ⟨slug, hslug, hp'⟩ := List.mem_flatMap.mp hin
    exact hlast (slug_eq_of_mem_groupPaths hp hp' ▸ hslug)
  have hclient : clientPath g ∉ keys ((storePath g, text) :: later.flatMap groupFiles) :=
    List.not_mem_cons_of_ne_of_not_mem clientPath_ne_storePath (hnew _ List.mem_cons_self)
  have hstore : storePath g ∉ keys (later.flatMap groupFiles) :=
    hnew _ (List.mem_cons_of_mem _ List.mem_cons_self)
  have hwritten : (earlier ++ (g, text) :: later).flatMap groupFiles =
      earlier.flatMap groupFiles ++ (clientPath g, clientFile g) ::
        (storePath g, text) :: later.flatMap groupFiles := by
    rw [List.flatMap_append, List.flatMap_cons]
    rfl
  rw [hwritten]
  refine ⟨lookup_merge_last hclient, text, htexts (g, text) (by simp), ?_⟩
  rw [← List.singleton_append, ← List.append_assoc]
  exact lookup_merge_last hstore

/-- A client starts with the name of its group. -/
theorem clientFile_eq (g : Group) : ∃ rest,
    clientFile g = "// Generated API functions for " ++ g.key ++ "\n" ++ rest := by
  rw [clientFile, clientLines, clientHead, List.cons_append, List.cons_append, List.cons_append,
    List.cons_append, unlines_cons]
  exact ⟨_, rfl⟩

/-- Groups with the same client have the same name. -/
theorem key_eq_of_clientFile_eq {other : Group} (hg : IsCanonical g.key.toList)
    (hother : IsCanonical other.key.toList) (h : clientFile g = clientFile other) :
    g.key = other.key := by
  -- the name goes up to the first line feed
  have hname : ∀ k : Group, IsCanonical k.key.toList → ∀ rest : String,
      (k.key ++ "\n" ++ rest).toList.takeWhile (· ≠ '\n') = k.key.toList := by
    intro k hk rest
    rw [String.toList_append, String.toList_append, List.append_assoc,
      List.takeWhile_append_of_pos]
    · simp
    · intro c hc
      have halnum : c.isAlphanum = true := hk.alphanumeric c hc
      rw [decide_eq_true_iff]
      rintro rfl
      exact absurd halnum (by decide)
  obtain ⟨rest, hrest⟩ := clientFile_eq g
  obtain ⟨rest', hrest'⟩ := clientFile_eq other
  rw [hrest, hrest', String.append_assoc, String.append_assoc, String.append_assoc,
    String.append_assoc, String.append_right_inj, ← String.append_assoc, ← String.append_assoc] at h
  rw [← String.toList_inj, ← hname g hg rest, ← hname other hother rest', h]

/-- Groups that both have their client do not share a slug. -/
theorem key_eq_of_slug_eq {other : Group} (hg : IsCanonical g.key.toList)
    (hother : IsCanonical other.key.toList) (hfs : Holds fs g) (hfs' : Holds fs other)
    (h : g.slug = other.slug) : g.key = other.key := by
  have hpath : clientPath g = clientPath other := by rw [clientPath, h, clientPath]
  have hclient : some (clientFile g) = some (clientFile other) := by
    rw [← hfs.client, hpath, hfs'.client]
  exact key_eq_of_clientFile_eq hg hother (Option.some.inj hclient)

/-- **Every group has its files exactly if no two share a slug.** -/
theorem holds_iff_nodup_slugs (h : (s.blueprint config seed).outcome = (.ok b, log))
    (hfs : files b = .ok fs) :
    (∀ g ∈ b.groups, Holds fs g) ↔ (b.groups.map Group.slug).Nodup := by
  have hkeys := Blueprint.nodup_group_keys h
  constructor
  · intro hholds
    refine hkeys.of_map.map_on fun g hg other hother hslug => ?_
    refine List.inj_on_of_nodup_map hkeys hg hother ?_
    exact key_eq_of_slug_eq (Blueprint.isCanonical_of_mem_groups h hg)
      (Blueprint.isCanonical_of_mem_groups h hother) (hholds g hg) (hholds other hother) hslug
  · intro hslugs g hg
    obtain ⟨before, after, hgroups⟩ := List.append_of_mem hg
    refine holds_of_last hfs hgroups ?_
    rw [hgroups, List.map_append, List.map_cons] at hslugs
    exact (List.nodup_cons.mp (List.nodup_append.mp hslugs).2.1).1

/-- **Slugs are distinct** if no two capitals stand side by side in the
name of a group. -/
theorem nodup_slugs (h : (s.blueprint config seed).outcome = (.ok b, log))
    (hsingle : ∀ g ∈ b.groups, SingleCapitals g.key.toList) : (b.groups.map Group.slug).Nodup := by
  -- such a name can be read back from the slug
  have hback : ∀ g ∈ b.groups, pascal g.slug = g.key := by
    intro g hg
    have hname : pascal g.key = g.key := (Blueprint.isCanonical_of_mem_groups h hg).pascal_eq
    rw [Group.slug, pascal_kebab (hname.symm ▸ hsingle g hg), hname]
  refine List.Nodup.of_map pascal ?_
  rw [List.map_map, Function.comp_def, List.map_congr_left hback]
  exact Blueprint.nodup_group_keys h

/-- There are two files for every group exactly if no two share a slug. -/
theorem length_files_eq_iff (hfs : files b = .ok fs) :
    fs.length = 7 + 2 * b.groups.length ↔ (b.groups.map Group.slug).Nodup := by
  rw [← Distinct.length_eraseDups_eq_iff, length_files hfs, List.length_map]
  omega

/-- **What becomes of the files of the groups.** Two for every slug are
written, and a slug has those of the last group that has it. So there are
two for every group, and every group has its own, exactly if no two groups
share a slug. Groups share a slug if the words of their names differ in
case only, which takes two capitals side by side. -/
theorem files_of_groups (h : (s.blueprint config seed).outcome = (.ok b, log))
    (hfs : files b = .ok fs) :
    keys fs = fixedPaths ++ (b.groups.map Group.slug).eraseDups.flatMap groupPaths ∧
      (∀ before g after, b.groups = before ++ g :: after → g.slug ∉ after.map Group.slug →
        Holds fs g) ∧
      (fs.length = 7 + 2 * b.groups.length ↔ (b.groups.map Group.slug).Nodup) ∧
      ((∀ g ∈ b.groups, Holds fs g) ↔ (b.groups.map Group.slug).Nodup) ∧
      (∀ g ∈ b.groups, ∀ other ∈ b.groups,
        g.slug = other.slug ↔ slugWords g.key = slugWords other.key) ∧
      ((∀ g ∈ b.groups, SingleCapitals g.key.toList) → (b.groups.map Group.slug).Nodup) :=
  ⟨keys_files hfs, fun _ _ _ => holds_of_last hfs, length_files_eq_iff hfs,
    holds_iff_nodup_slugs h hfs, fun _ _ _ _ => kebab_eq_iff, nodup_slugs h⟩

/-- Two groups of which the second takes the files of the first, and one
that shares its slug with neither. -/
theorem acronym_files : ∃ b log fs,
    ((tagged ["API", "Api", "Pets"]).blueprint none none).outcome = (.ok b, log) ∧
      files b = .ok fs ∧ b.groups.map Group.slug = ["api", "api", "pets"] ∧
      keys fs = fixedPaths ++ (b.groups.map Group.slug).eraseDups.flatMap groupPaths ∧
      (∀ before g after, b.groups = before ++ g :: after → g.slug ∉ after.map Group.slug →
        Holds fs g) ∧
      (fs.length = 7 + 2 * b.groups.length ↔ (b.groups.map Group.slug).Nodup) ∧
      ((∀ g ∈ b.groups, Holds fs g) ↔ (b.groups.map Group.slug).Nodup) ∧
      (∀ g ∈ b.groups, ∀ other ∈ b.groups,
        g.slug = other.slug ↔ slugWords g.key = slugWords other.key) ∧
      ((∀ g ∈ b.groups, SingleCapitals g.key.toList) → (b.groups.map Group.slug).Nodup) := by
  have hmade : ((tagged ["API", "Api", "Pets"]).blueprint none none).outcome.1.toOption.bind
      (fun b => (files b).toOption.map fun _ => b.groups.map Group.slug) =
      some ["api", "api", "pets"] := by decide +kernel
  obtain ⟨b, log, fs, houtcome, hfs, hslugs⟩ := of_made hmade
  exact ⟨b, log, fs, houtcome, hfs, hslugs, files_of_groups houtcome hfs⟩

/-- Not every group has two files of its own: `API` and `Api` have one slug,
hence one client, one store and one name of a store in the database. -/
theorem not_two_files_a_group : ¬ ∀ (s : Spec) (config : Option Config) (seed : Option Seed)
    (b : Blueprint) (log : List LogEntry) (fs : List (String × String)),
    (s.blueprint config seed).outcome = (.ok b, log) → files b = .ok fs →
      fs.length = 7 + 2 * b.groups.length ∧ (b.groups.map Group.slug).Nodup ∧
        (b.groups.map storeLine).Nodup ∧ ∀ g ∈ b.groups, Holds fs g := by
  intro hall
  have hmade : ((tagged ["API", "Api"]).blueprint none none).outcome.1.toOption.bind
      (fun b => (files b).toOption.map fun fs => (b.groups.map Group.slug, fs.length)) =
      some (["api", "api"], 9) := by decide +kernel
  obtain ⟨b, log, fs, houtcome, hfs, hfiles⟩ := of_made hmade
  obtain ⟨hslugs, hlength⟩ := Prod.mk.inj hfiles
  obtain ⟨hcount, -⟩ := hall _ none none b log fs houtcome hfs
  have hgroups : b.groups.length = 2 := by
    rw [← List.length_map Group.slug, hslugs]
    rfl
  omega

end Emit

end ApiMock
