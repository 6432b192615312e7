import ApiMock.Cli.Run
import ApiMock.Proofs.Emit.Writing
/-!
# Cli — nothing is written before all is rendered

A run goes through its stages on the tree that it was called on: settings,
seed records, document, specification, files (`prepared`). A stage that
fails ends the run with the tree as it was; behind the last one the run
comes to what writing the files comes to (`generate_endsOn`). So whatever
changes a tree has rendered all of its files before.
-/

namespace ApiMock

open Stateful

namespace Cli

variable {α β γ : Type} {files after : FileTree} {o : Options} {out : FilePath} {f : Failure}
  {x : Running α} {k : α → Running β} {r : Except Failure α}

/-- The files of a run, rendered, stage by stage. -/
def prepared (files : FileTree) (o : Options) : Except Failure (List (String × String)) := do
  let config ← (Config.load files o.config o.settings).outcome.1
  if o.verbose then let _ ← config.printed
  let seed ← (Seed.load files o.seed).outcome.1
  let document ← (OpenApi.load files o.input).outcome.1
  let spec ← Spec.parse document
  Emit.rendered spec (some config) seed

/-! ## What steps come to -/

/-- What a step of a run comes to on a tree, whatever was printed and reported before: its
outcome, and the tree then. -/
def EndsOn (files : FileTree) (x : Running α) (r : Except Failure α × FileTree) : Prop :=
  ∀ s, s.workspace.files = files → ((x.run.run s).1, (x.run.run s).2.workspace.files) = r

theorem endsOn_lift : EndsOn files (liftM r) (r, files) := by
  intro s hs
  rw [run_lift, hs]

theorem endsOn_print {line : String} : EndsOn files (print line) (.ok (), files) :=
  fun _ hs => congrArg (Prod.mk _) hs

theorem endsOn_filing {y : Filing α} {r : Except Failure α × FileTree}
    (hy : ∀ w, w.files = files → ((y.run.run w).1, (y.run.run w).2.files) = r) :
    EndsOn files (filing y) r := by
  intro s hs
  rw [filing, run_get_bind, ← hy s.workspace hs]
  rcases y.run.run s.workspace with ⟨f | a, w⟩ <;> rfl

/-- Loading leaves the tree. -/
theorem endsOn_loading {y : FileTree → Logged α} :
    EndsOn files (loading y) ((y files).outcome.1, files) := by
  intro s hs
  rw [loading, run_get_bind, hs]
  refine endsOn_filing (fun w hw => ?_) s hs
  rw [Filing.run_ofLogged, hw]

theorem EndsOn.bind {a : α} {r : Except Failure β × FileTree}
    (hx : EndsOn files x (.ok a, after)) (hk : EndsOn after (k a) r) :
    EndsOn files (x >>= k) r := by
  intro s hs
  obtain ⟨hok, hafter⟩ := Prod.mk.inj (hx s hs)
  rw [run_bind_of_ok (Prod.ext hok rfl)]
  exact hk _ hafter

theorem EndsOn.stop (hx : EndsOn files x (.error f, after)) :
    EndsOn files (x >>= k) (.error f, after) := by
  intro s hs
  obtain ⟨hfails, hafter⟩ := Prod.mk.inj (hx s hs)
  rw [run_bind_of_error (Prod.ext hfails rfl), ← hafter]

theorem endsOn_printAll {line : γ → String} {xs : List γ} :
    EndsOn files (xs.forM fun x => print (line x)) (.ok (), files) := by
  induction xs with
  | nil => exact fun _ hs => congrArg (Prod.mk _) hs
  | cons x rest ih => exact endsOn_print.bind ih

/-! ## The stages of a run -/

/-- What files that are rendered make of a tree, or the failure to render them: it leaves the
tree. -/
def written (out : FilePath) (files : FileTree) :
    Except Failure (List (String × String)) → Except Failure Unit × FileTree
  | .error f => (.error f, files)
  | .ok fs =>
    let (r, after) := (Emit.write out (Emit.contents fs)).on files
    (r.map fun _ => (), after)

/-- A stage leaves the tree to the stages behind it. -/
theorem EndsOn.stage {y : α → Except Failure (List (String × String))} {k : α → Running Unit}
    (hx : EndsOn files x (r, files)) (hk : ∀ a, EndsOn files (k a) (written out files (y a))) :
    EndsOn files (x >>= k) (written out files (r >>= y)) := by
  cases r with
  | error f => exact hx.stop
  | ok a => exact hx.bind (hk a)

/-- The last stage, behind which only lines are printed. -/
theorem endsOn_generate {spec : Spec} {config : Option Config} {seed : Option Seed}
    {k : List FilePath → Running Unit} (hk : ∀ paths files, EndsOn files (k paths) (.ok (), files)) :
    EndsOn files (filing (Emit.generate spec out config seed) >>= k)
      (written out files (Emit.rendered spec config seed)) := by
  have htask : EndsOn files (filing (Emit.generate spec out config seed))
      (match Emit.rendered spec config seed with
      | .error f => (.error f, files)
      | .ok fs => (Emit.write out (Emit.contents fs)).on files) :=
    endsOn_filing fun w hw => hw ▸ Emit.generate_eq
  cases hr : Emit.rendered spec config seed with
  | error f =>
    rw [hr] at htask
    exact htask.stop
  | ok fs =>
    rw [hr] at htask
    dsimp only at htask
    rw [written]
    rcases hw : (Emit.write out (Emit.contents fs)).on files with ⟨f | paths, after⟩
    · rw [hw] at htask
      exact htask.stop
    · rw [hw] at htask
      exact htask.bind (hk paths after)

/-- **A run is its stages, and writing behind them.** -/
theorem generate_endsOn : EndsOn files (generate o) (written o.output files (prepared files o)) := by
  rw [generate, prepared]
  refine endsOn_loading.stage fun config => ?_
  dsimp only
  -- the settings are printed or not, and the other stages are the same
  split
  on_goal 1 => refine endsOn_lift.stage fun settings => endsOn_print.bind ?_
  all_goals
    refine endsOn_loading.stage fun seed => endsOn_print.bind ?_
    refine endsOn_loading.stage fun document => ?_
    refine endsOn_lift.stage fun spec => endsOn_print.bind (endsOn_print.bind ?_)
    exact endsOn_generate fun paths files => endsOn_print.bind endsOn_printAll

/-- The tree at the end of a run. -/
theorem files_generateOutcome :
    (generateOutcome files o).files = (written o.output files (prepared files o)).2 := by
  have h := generate_endsOn (o := o) ⟨⟨files, []⟩, []⟩ rfl
  rw [← h, generateOutcome]
  rcases (generate o).run.run ⟨⟨files, []⟩, []⟩ with ⟨f | ⟨⟩, s⟩
  · cases f <;> rfl
  · rfl

/-- A run that fails ends with the code 1. -/
theorem exitCode_generateOutcome (h : (written o.output files (prepared files o)).1 = .error f) :
    (generateOutcome files o).exitCode = 1 := by
  have hends := generate_endsOn (o := o) ⟨⟨files, []⟩, []⟩ rfl
  rw [← hends] at h
  rw [generateOutcome]
  rcases hrun : (generate o).run.run ⟨⟨files, []⟩, []⟩ with ⟨g | ⟨⟩, s⟩
  · cases g <;> rfl
  · rw [hrun] at h
    cases h

/-- **A run writes nothing unless all is rendered.** If something of a specification cannot be
rendered, generating its files fails with the tree as it was. A run of which a stage fails ends
with the code 1 and with the tree as it was. And a run of the program leaves the tree, or it has
rendered all files, and comes to what writing them makes of the tree. -/
theorem untouched_unless_rendered :
    (∀ s out config seed files, Emit.Unrendered s config seed →
      ∃ f, (Emit.generate s out config seed).on files = (.error f, files)) ∧
    (∀ p files args o f, request files args = .ok (.generate o) → prepared files o = .error f →
      (run p files args).exitCode = 1 ∧ (run p files args).files = files) ∧
    ∀ p files args, (run p files args).files = files ∨
      ∃ o fs, request files args = .ok (.generate o) ∧ prepared files o = .ok fs ∧
        (run p files args).files = ((Emit.write o.output (Emit.contents fs)).on files).2 := by
  refine ⟨fun s out config seed files h => ?_, fun p files args o f ho hf => ?_,
    fun p files args => ?_⟩
  · obtain ⟨f, hf⟩ := Emit.unrendered_iff.mp h
    refine ⟨f, ?_⟩
    rw [Filing.on, Emit.generate_eq, hf]
  · have hwritten : written o.output files (prepared files o) = (.error f, files) := by
      rw [hf, written]
    rw [run, ho]
    refine ⟨exitCode_generateOutcome (congrArg Prod.fst hwritten), ?_⟩
    exact files_generateOutcome.trans (congrArg Prod.snd hwritten)
  · rw [run]
    cases request files args with
    | error stop => cases stop <;> exact .inl rfl
    | ok asked =>
      cases asked with
      | help => exact .inl rfl
      | version => exact .inl rfl
      | generate o =>
        dsimp only
        rw [files_generateOutcome]
        cases hp : prepared files o with
        | error f => exact .inl rfl
        | ok fs => exact .inr ⟨o, fs, rfl, hp, rfl⟩

/-- A tree with a document of the old format. -/
def oldFormat : FileTree := ⟨[(["spec.yaml"], .file "swagger: '2.0'\n".toUTF8.toList)]⟩

/-- Records of the second group that no literal can hold stop the first one's files too, and a
document of the old format leaves everything as it was. -/
theorem old_format_untouched :
    (∃ f, (Emit.generate (Emit.tagged ["Pets", "Zoo"]) ⟨"", ["out"]⟩ none
      (some [("Zoo", [.scalar (.date ⟨2020, 1, 2⟩)])])).on .empty = (.error f, .empty)) ∧
    (run ⟨"main", 80⟩ oldFormat ["generate", "spec.yaml"]).exitCode = 1 ∧
      (run ⟨"main", 80⟩ oldFormat ["generate", "spec.yaml"]).files = oldFormat := by
  have hzoo : Emit.rendered (Emit.tagged ["Pets", "Zoo"]) none
      (some [("Zoo", [.scalar (.date ⟨2020, 1, 2⟩)])]) = .error .notJson := by decide +kernel
  have hrequest : request oldFormat ["generate", "spec.yaml"] =
      .ok (.generate { Options.defaults with input := ⟨"", ["spec.yaml"]⟩ }) := by
    rfl
  have hstage : prepared oldFormat { Options.defaults with input := ⟨"", ["spec.yaml"]⟩ } =
      .error (.spec (.oldFormat "2.0")) := by decide +kernel
  obtain ⟨hgenerate, hrun, -⟩ := untouched_unless_rendered
  exact ⟨hgenerate _ _ _ _ _ (Emit.unrendered_iff.mpr ⟨_, hzoo⟩),
    hrun _ _ _ _ _ hrequest hstage⟩

end Cli

end ApiMock
