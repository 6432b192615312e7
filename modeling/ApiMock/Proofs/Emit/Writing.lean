import ApiMock.Emit.Write
import ApiMock.Proofs.Emit.Paths
import ApiMock.Proofs.Stateful
/-!
# Emit — rendering comes before writing

A step that may change files comes to an outcome and to a tree, whatever was
reported before it (`Filing.Reports`). Generating files is decided by their
rendering: unless all of them can be rendered the tree is left as it is, and
else it comes to what writing them comes to (`generate_eq`).
-/

namespace ApiMock

open Sequence Stateful

namespace Filing

variable {α β : Type} {x : Filing α} {k : α → Filing β} {w : Workspace}

/-- What a step comes to on a tree: its outcome, and the tree then. -/
def on (x : Filing α) (files : FileTree) : Except Failure α × FileTree :=
  ((x.run.run ⟨files, []⟩).1, (x.run.run ⟨files, []⟩).2.files)

/-- The messages so far do not matter to a step: it adds its own. -/
def Reports (x : Filing α) : Prop :=
  ∀ files, ∃ r after added, ∀ log, x.run.run ⟨files, log⟩ = (r, ⟨after, log ++ added⟩)

/-- A step that only reports leaves the files. -/
theorem run_ofLogged {y : Logged α} :
    (ofLogged y).run.run w = (y.outcome.1, ⟨w.files, w.log ++ y.outcome.2⟩) := by
  rw [ofLogged]
  rcases y.outcome with ⟨f | a, log⟩ <;> rfl

namespace Reports

theorem pure {a : α} : Reports (Pure.pure a) :=
  fun files => ⟨.ok a, files, [], fun log => by rw [List.append_nil]; rfl⟩

theorem throw {f : Failure} : Reports (MonadExcept.throw f : Filing α) :=
  fun files => ⟨.error f, files, [], fun log => by rw [List.append_nil]; rfl⟩

theorem ofLogged {y : Logged α} : Reports (ofLogged y) :=
  fun files => ⟨_, files, _, fun _ => run_ofLogged⟩

theorem makeDirectories {p : FilePath} : Reports (makeDirectories p) := by
  refine fun files => ⟨(files.makeDirectories p).2, (files.makeDirectories p).1, [], fun log => ?_⟩
  rw [Filing.makeDirectories, run_get_bind, List.append_nil]
  rcases files.makeDirectories p with ⟨after, f | ⟨⟩⟩ <;> rfl

theorem writeBytes {p : FilePath} {bytes : List UInt8} : Reports (writeBytes p bytes) := by
  intro files
  cases hr : files.write p bytes with
  | error f =>
    refine ⟨.error f, files, [], fun log => ?_⟩
    rw [Filing.writeBytes, List.append_nil, run_get_bind]
    exact run_bind_of_error (run_lift.trans (by rw [hr]))
  | ok after =>
    refine ⟨.ok (), after, [], fun log => ?_⟩
    rw [Filing.writeBytes, List.append_nil, run_get_bind,
      run_bind_of_ok (run_lift.trans (by rw [hr]))]
    rfl

theorem bind (hx : Reports x) (hk : ∀ a, Reports (k a)) : Reports (x >>= k) := by
  intro files
  obtain ⟨r, after, added, hx⟩ := hx files
  cases r with
  | error f => exact ⟨.error f, after, added, fun log => run_bind_of_error (hx log)⟩
  | ok a =>
    obtain ⟨r', after', added', hk⟩ := hk a after
    refine ⟨r', after', added ++ added', fun log => ?_⟩
    rw [run_bind_of_ok (hx log), hk, List.append_assoc]

theorem mapM {xs : List α} (hk : ∀ a, Reports (k a)) : Reports (xs.mapM k) := by
  induction xs with
  | nil => exact pure
  | cons a rest ih =>
    rw [List.mapM_cons]
    exact (hk a).bind fun _ => ih.bind fun _ => pure

/-- So what a step comes to depends on the tree alone. -/
theorem eq_on (hx : Reports x) (w : Workspace) :
    ((x.run.run w).1, (x.run.run w).2.files) = x.on w.files := by
  obtain ⟨r, after, added, hx⟩ := hx w.files
  rw [on, hx []]
  exact congrArg (fun v => (v.1, v.2.files)) (hx w.log)

end Reports

end Filing

namespace Emit

variable {s : Spec} {out : FilePath} {config : Option Config} {seed : Option Seed} {w : Workspace}

theorem writeContent_reports {p : FilePath} {d : Data} : (writeContent p d).Reports := by
  unfold writeContent
  split
  · rename_i text
    cases Text.encode? text with
    | some bytes => exact .writeBytes
    | none => exact Filing.Reports.writeBytes.bind fun _ => .throw
  · exact .throw

theorem write_reports {fs : List (String × Data)} : (write out fs).Reports := by
  refine .mapM fun f => ?_
  have hfile : (writeFile (out.join (.ofText f.1)) f.2).Reports :=
    Filing.Reports.makeDirectories.bind fun _ => writeContent_reports.bind fun _ => .ofLogged
  exact hfile.bind fun _ => .pure

/-! ## What is rendered -/

/-- The files of a specification, all of them rendered. -/
def rendered (s : Spec) (config : Option Config) (seed : Option Seed) :
    Except Failure (List (String × String)) := do
  files (← (s.blueprint config seed).outcome.1)

/-- The rendered files as they are written. -/
def contents (fs : List (String × String)) : List (String × Data) :=
  fs.map fun f => (f.1, .str f.2)

/-- Something of a specification cannot be rendered: its blueprint cannot be made, its settings
have no file, or one of its groups, whichever it is, has no store. -/
inductive Unrendered (s : Spec) (config : Option Config) (seed : Option Seed) : Prop where
  | blueprint {f : Failure} (h : (s.blueprint config seed).outcome.1 = .error f)
  | settings {b : Blueprint} {f : Failure} (h : (s.blueprint config seed).outcome.1 = .ok b)
      (hf : configFile b = .error f)
  | store {b : Blueprint} {g : Group} {f : Failure}
      (h : (s.blueprint config seed).outcome.1 = .ok b) (hg : g ∈ b.groups)
      (hf : storeFile g = .error f)

/-- **Some file is not rendered exactly if rendering fails.** -/
theorem unrendered_iff : Unrendered s config seed ↔ ∃ f, rendered s config seed = .error f := by
  constructor
  · intro h
    cases hr : rendered s config seed with
    | error f => exact ⟨f, rfl⟩
    | ok fs =>
      obtain ⟨b, hb, hfs⟩ := of_bind_ok hr
      obtain ⟨fixed, hfixed, -⟩ := of_bind_ok hfs
      obtain ⟨c, hc, -⟩ := of_bind_ok hfixed
      obtain ⟨-, stored, -, hgroups, hstored, -⟩ := of_files hfs
      cases h with
      | blueprint h => cases hb.symm.trans h
      | settings h hf =>
        cases hb.symm.trans h
        cases hc.symm.trans hf
      | store h hg hf =>
        cases hb.symm.trans h
        rw [← hgroups] at hg
        obtain ⟨e, he, rfl⟩ := List.mem_map.mp hg
        cases (hstored e he).symm.trans hf
  · rintro ⟨f, hf⟩
    rcases of_bind_error hf with hb | ⟨b, hb, hf⟩
    · exact .blueprint hb
    · by_cases hstores : ∀ g ∈ b.groups, ∃ text, storeFile g = .ok text
      · -- then it is the settings, the only ones of the other files that can fail
        rcases of_bind_error hf with hf | ⟨fixed, -, hf⟩
        · rcases of_bind_error hf with hf | ⟨c, -, hf⟩
          · exact .settings hb hf
          · cases hf
        · obtain ⟨fs, hfs⟩ := foldlM_addGroup_isOk fixed hstores
          cases hf.symm.trans hfs
      · push Not at hstores
        obtain ⟨g, hg, hstore⟩ := hstores
        cases hs : storeFile g with
        | error e => exact .store hb hg hs
        | ok text => exact absurd hs (hstore text)

/-- **Rendering decides.** Unless all files can be rendered the tree is left as it is; else the
task comes to what writing them comes to. -/
theorem generate_eq : (((generate s out config seed).run.run w).1,
    ((generate s out config seed).run.run w).2.files) =
      match rendered s config seed with
      | .error f => (.error f, w.files)
      | .ok fs => (write out (contents fs)).on w.files := by
  rw [generate]
  cases hr : rendered s config seed with
  | error f =>
    rcases of_bind_error hr with hb | ⟨b, hb, hf⟩
    · rw [run_bind_of_error (Filing.run_ofLogged.trans (by rw [hb]))]
    · rw [run_bind_of_ok (Filing.run_ofLogged.trans (by rw [hb])),
        run_bind_of_error (run_lift.trans (by rw [hf]))]
  | ok fs =>
    obtain ⟨b, hb, hf⟩ := of_bind_ok hr
    rw [run_bind_of_ok (Filing.run_ofLogged.trans (by rw [hb])),
      run_bind_of_ok (run_lift.trans (by rw [hf]))]
    exact write_reports.eq_on _

end Emit

end ApiMock
