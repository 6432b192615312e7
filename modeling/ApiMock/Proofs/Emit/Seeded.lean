import ApiMock.Proofs.Document.Accepted
import ApiMock.Proofs.Emit.Paths
import ApiMock.Proofs.Json.Writable
import ApiMock.Seed.Load
/-!
# Emit — files with seed records

A seed changes a blueprint in the records of its groups only, and the files
of a group only in the literal of its records. So what is written without a
seed is written with one exactly if every record of a group is writable
(`files_of_seed`). A loaded seed may hold a day, and then nothing is
written.
-/

namespace ApiMock

open Sequence

/-- The blueprint with the records of a seed. -/
def Blueprint.seeded (b : Blueprint) (seed : Seed) : Blueprint :=
  { b with groups := b.groups.map fun g => { g with seed := Seed.records (some seed) g.key } }

namespace Emit

open TypeScript Resolving

variable {s : Spec} {config : Option Config} {b : Blueprint} {log : List LogEntry}
  {fs : List (String × String)} {g : Group}

/-- **What a seed changes in a blueprint**: the records of its groups. -/
theorem blueprint_seeded (h : (s.blueprint config none).outcome = (.ok b, log)) (seed : Seed) :
    (s.blueprint config (some seed)).outcome = (.ok (b.seeded seed), log) := by
  obtain ⟨expansions, h⟩ := Blueprint.outcome_eq_iff.mp h
  obtain ⟨table, inner, routes, endpoints, htable, hroutes, hendpoints, rfl⟩ :=
    Blueprint.of_build h
  refine Blueprint.outcome_eq_iff.mpr ⟨expansions, ?_⟩
  have hlift : (liftM s.routes : Resolving _).result inner = (.ok routes, inner) := by
    rw [result_lift, hroutes]
  rw [Blueprint.build, result_bind_of_ok htable, result_bind_of_ok hlift,
    result_bind_of_ok Blueprint.result_groups, result_bind_of_ok hendpoints, Blueprint.seeded,
    List.map_map]
  rfl

/-- The store of a group is written if its records are writable. -/
theorem storeFile_isOk_iff : (∃ t, storeFile g = .ok t) ↔ ∀ d ∈ g.seed, d.Writable := by
  have hlist : (Data.list g.seed).Writable ↔ ∀ d ∈ g.seed, d.Writable := by
    constructor
    · rintro (_ | _ | _ | _ | _ | h)
      exact h
    · exact .list
  rw [← hlist, ← Json.ofData_isOk_iff, storeFile, Json.literalBlock]
  constructor
  · rintro ⟨t, ht⟩
    obtain ⟨records, hrecords, -⟩ := of_bind_ok ht
    obtain ⟨j, hj, -⟩ := of_bind_ok hrecords
    exact ⟨j, hj⟩
  · rintro ⟨j, hj⟩
    rw [hj]
    exact ⟨_, rfl⟩

/-- **All files are written** if the delay has a literal and all records are writable. -/
theorem files_isOk_iff : (∃ fs, files b = .ok fs) ↔
    (∃ t, delayLiteral b.config = .ok t) ∧ ∀ g ∈ b.groups, ∀ d ∈ g.seed, d.Writable := by
  constructor
  · rintro ⟨fs, h⟩
    obtain ⟨fixed, stored, -, hgroups, hstored, -⟩ := of_files h
    obtain ⟨_, hfixed, -⟩ := of_bind_ok h
    obtain ⟨_, hconfig, -⟩ := of_bind_ok hfixed
    obtain ⟨t, ht, -⟩ := of_bind_ok hconfig
    refine ⟨⟨t, ht⟩, fun g hg => ?_⟩
    rw [← hgroups] at hg
    obtain ⟨e, he, rfl⟩ := List.mem_map.mp hg
    exact storeFile_isOk_iff.mp ⟨e.2, hstored e he⟩
  · rintro ⟨hdelay, hseeds⟩
    refine exists_files hdelay fun g hg => ?_
    obtain ⟨t, ht⟩ := storeFile_isOk_iff.mpr (hseeds g hg)
    obtain ⟨records, hrecords, -⟩ := of_bind_ok ht
    exact ⟨records, hrecords⟩

/-- **What becomes of a seed.** It changes nothing but the records of the groups, and what is
written without it is written with it exactly if all records of a group are writable, as
all are that a JSON text can hold. -/
theorem files_of_seed (h : (s.blueprint config none).outcome = (.ok b, log))
    (hfs : files b = .ok fs) (seed : Seed) :
    (s.blueprint config (some seed)).outcome = (.ok (b.seeded seed), log) ∧
      ((∃ fs', files (b.seeded seed) = .ok fs') ↔
        ∀ g ∈ b.groups, ∀ d ∈ Seed.records (some seed) g.key, d.Writable) ∧
      ((∀ g ∈ b.groups, ∀ d ∈ Seed.records (some seed) g.key, d.IsJson) →
        ∃ fs', files (b.seeded seed) = .ok fs') := by
  have hdelay : ∃ t, delayLiteral (b.seeded seed).config = .ok t := (files_isOk_iff.mp ⟨fs, hfs⟩).1
  have hwritten : (∃ fs', files (b.seeded seed) = .ok fs') ↔
      ∀ g ∈ b.groups, ∀ d ∈ Seed.records (some seed) g.key, d.Writable := by
    rw [files_isOk_iff, Blueprint.seeded]
    simp only [List.forall_mem_map]
    exact ⟨fun h => h.2, fun h => ⟨hdelay, h⟩⟩
  exact ⟨blueprint_seeded h seed, hwritten,
    fun hjson => hwritten.mpr fun g hg d hd => (hjson g hg d hd).writable⟩

/-- Two records of one group: an object, and a mapping from numbers that no JSON text can
hold. -/
def petSeed : Seed :=
  [("Pets", [.object [("id", .int 1)], .map [(.int 2, .str "two"), (.bool false, .null)]])]

/-- They are writable, so all files are written with them. -/
theorem pets_seeded : ∃ b log fs, ((tagged ["Pets"]).blueprint none none).outcome = (.ok b, log) ∧
    files b = .ok fs ∧
    ((tagged ["Pets"]).blueprint none (some petSeed)).outcome = (.ok (b.seeded petSeed), log) ∧
    ∃ fs', files (b.seeded petSeed) = .ok fs' := by
  have hmade : ((tagged ["Pets"]).blueprint none none).outcome.1.toOption.bind
      (fun b => (files b).toOption.map fun _ => b.groups.map Group.key) = some ["Pets"] := by
    decide +kernel
  obtain ⟨b, log, fs, houtcome, hfs, hkeys⟩ := of_made hmade
  obtain ⟨hseeded, hwritten, -⟩ := files_of_seed houtcome hfs petSeed
  refine ⟨b, log, fs, houtcome, hfs, hseeded, hwritten.mpr fun g hg d hd => ?_⟩
  have hkey : g.key = "Pets" := by
    have := List.mem_map_of_mem (f := Group.key) hg
    rw [hkeys] at this
    exact List.mem_singleton.mp this
  rw [hkey] at hd
  have hsmall : ∀ n : Int, n = 1 ∨ n = 2 → Number.hasText n := by
    rintro n (rfl | rfl) <;> decide +kernel
  have hrecords : Seed.records (some petSeed) "Pets" =
    [.object [("id", .int 1)], .map [(.int 2, .str "two"), (.bool false, .null)]] := rfl
  rw [hrecords] at hd
  rcases List.mem_cons.mp hd with rfl | hd
  · refine .map (.single (by simp)) ?_ ?_
    · simpa using .str _
    · simpa using .int (hsmall 1 (.inl rfl))
  · obtain rfl := List.mem_singleton.mp hd
    refine .map (.numbers ?_) ?_ ?_
    · simp [Json.keyKind]
    · simpa using ⟨.int (hsmall 2 (.inr rfl)), .bool false⟩
    · simpa using ⟨.str _, .null⟩

/-- A tree with one file, a seed with a day for a record. -/
def dated : FileTree := ⟨[(["seed.yaml"], .file "Pets: [2020-01-02]".toUTF8.toList)]⟩

/-- The seed is loaded, and with it the files are not written. So not every loaded seed can be
written. -/
theorem dated_unwritten : ¬ ∀ (s : Spec) (config : Option Config) (b : Blueprint)
    (log : List LogEntry) (fs : List (String × String)) (tree : FileTree) (path : FilePath)
    (seed : Seed) (loaded : List LogEntry),
    (s.blueprint config none).outcome = (.ok b, log) → files b = .ok fs →
      (Seed.load tree (some path)).outcome = (.ok (some seed), loaded) →
        ∃ b' log' fs', (s.blueprint config (some seed)).outcome = (.ok b', log') ∧
          files b' = .ok fs' := by
  intro h
  have hplain : ((tagged ["Pets"]).blueprint none none).outcome.1.toOption.bind
      (fun b => (files b).toOption.map fun _ => ()) = some () := by decide +kernel
  obtain ⟨b, log, fs, houtcome, hfs, -⟩ := of_made hplain
  have hdated : (Seed.load dated (some ⟨"", ["seed.yaml"]⟩)).outcome.1.toOption.join.map
      (fun seed => (((tagged ["Pets"]).blueprint none (some seed)).outcome.1.toOption.bind
        fun b => (files b).toOption.map fun _ => ())) = some none := by decide +kernel
  rcases hload : (Seed.load dated (some ⟨"", ["seed.yaml"]⟩)).outcome with ⟨f | _ | seed, loaded⟩
  · rw [hload] at hdated
    cases hdated
  · rw [hload] at hdated
    cases hdated
  · rw [hload] at hdated
    obtain ⟨b', log', fs', houtcome', hfs'⟩ := h _ none b log fs _ _ seed loaded houtcome hfs hload
    have hnone := Option.some.inj hdated
    dsimp only at hnone
    rw [houtcome'] at hnone
    simp [Except.toOption, hfs'] at hnone

end Emit

end ApiMock
