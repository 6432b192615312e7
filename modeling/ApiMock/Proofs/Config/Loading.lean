import ApiMock.Config.Load
import ApiMock.Proofs.Data.TextKeys
import ApiMock.Proofs.Files.Values
/-!
# Config — what loading lets through

Stated settings that are accepted come back, with those of a file over them
or, if the file cannot be used, as they are and with one warning, unless
something `Escapes`: a stated setting goes by the name of the path, a scalar
of the file is refused for another cause than its value, or a key of the
file is no text (`load_falls_back`).
-/

namespace ApiMock

namespace Config

open Sequence

variable {files : FileTree} {path : FilePath} {base c : Config} {f : Failure}
  {values : List (String × Data)}

/-- The warning for a file that is left aside. -/
def leftAside (path : FilePath) (f : Failure) : LogEntry :=
  ⟨.warning, .config, s!"Could not load config file {path.text}, using defaults: {f.inWarning}"⟩

/-- What loading comes to where it ends well: without a file the stated settings, with a file
its settings over them, or the stated ones and one warning if the file has none. -/
inductive Settles (files : FileTree) (base : Config) :
    Option FilePath → Except Failure Config × List LogEntry → Prop where
  | stated : Settles files base none (.ok base, [])
  | used {path : FilePath} {c : Config} (h : ofFile base files path = .ok c) :
      Settles files base (some path) (.ok c, [])
  | leftAside {path : FilePath} {f : Failure} (h : ofFile base files path = .error f) :
      Settles files base (some path) (.ok base, [leftAside path f])

/-- What loading lets through. -/
inductive Escapes (files : FileTree) (path : Option FilePath) (values : List (String × Data)) :
    Failure → Prop where
  | named (h : (values.lookup pathName).isSome) : Escapes files path values .settingNamedPath
  | value {p : FilePath} {text : String} {f : Failure} (hp : path = some p)
      (ht : files.readText p = .ok text) (hf : Yaml.load text = .error f)
      (hr : Yaml.Refused text f) (hvalue : ∀ reason, f ≠ .badValue reason) :
      Escapes files path values f
  | key {p : FilePath} {text : String} {es : List (Scalar × Data)} {e : Scalar × Data}
      (hp : path = some p) (ht : files.readText p = .ok text)
      (hd : Yaml.load text = .ok (.map es)) (he : e ∈ es) (hkey : ∀ name, e.1 ≠ .str name) :
      Escapes files path values .settingNameNotText

/-! ## The settings of a document -/

theorem ofValues_fails : FailsOnly (fun f => isForgiven f = true) (ofValues values) := by
  rw [ofValues]
  dsimp only
  rw [failsOnly_bind, Data.refuseFaults]
  split
  · exact ⟨failsOnly_ok, fun _ _ => failsOnly_pure⟩
  · exact ⟨failsOnly_error.mpr rfl, fun _ _ => failsOnly_pure⟩

/-- Entries are named if their keys are texts. -/
theorem named_fails {es : List (Scalar × Data)} :
    FailsOnly (fun f => (∃ e ∈ es, ∀ name, e.1 ≠ .str name) ∧ f = .settingNameNotText)
      (named es) := by
  rw [named, failsOnly_bind]
  refine ⟨fun f hf => ?_, fun _ _ => failsOnly_pure⟩
  obtain ⟨e, he, hkey⟩ := exists_of_mapM_error hf
  split at hkey
  · cases hkey
  · rename_i hne
    cases hkey
    exact ⟨⟨e, he, hne⟩, rfl⟩

theorem named_of_key {es : List (Scalar × Data)} {e : Scalar × Data} (he : e ∈ es)
    (hkey : ∀ name, e.1 ≠ .str name) : named es = .error .settingNameNotText := by
  cases hnamed : named es with
  | error f => rw [(named_fails f hnamed).2]
  | ok settings =>
    obtain ⟨pairs, hpairs, -⟩ := of_bind_ok hnamed
    obtain ⟨pair, hpair⟩ := isOk_of_mapM hpairs e he
    split at hpair
    · rename_i name hname
      exact absurd hname (hkey name)
    · cases hpair

/-- **What the settings of a document fail for**: it is forgiven, or a key is no text. -/
theorem overlay_fails {d : Data} :
    FailsOnly (fun f => isForgiven f = true ∨ ∃ es, d = .map es ∧
      (∃ e ∈ es, ∀ name, e.1 ≠ .str name) ∧ f = .settingNameNotText) (overlay base d) := by
  rw [overlay]
  split
  · rename_i es hes
    rw [failsOnly_bind]
    refine ⟨fun f hf => .inr ?_, fun _ _ f hf => .inl (ofValues_fails f hf)⟩
    obtain ⟨⟨e, he, hkey⟩, rfl⟩ := named_fails f hf
    refine ⟨es, ?_, ⟨e, he, hkey⟩, rfl⟩
    -- what counts as false has no entries
    rw [Data.orEmpty] at hes
    split at hes
    · exact hes
    · cases hes
      cases he
  · exact failsOnly_throw.mpr (.inl rfl)

/-! ## Loading -/

/-- What the settings of a file fail for: it is forgiven, or escapes. -/
theorem ofFile_fails : FailsOnly (fun f => isForgiven f = true ∨ Escapes files (some path) values f)
    (ofFile base files path) := by
  intro f hf
  rw [ofFile, ← bind_assoc] at hf
  rcases of_bind_error hf with hvalue | ⟨d, hd, hover⟩
  · rcases files.value_fails f hvalue with ⟨fault, rfl⟩ | rfl | hspoiled
    · exact .inl rfl
    · exact .inl rfl
    · cases hspoiled with
      | nullByte => exact .inl rfl
      | encoding => exact .inl rfl
      | value ht hf hr =>
        by_cases hforgiven : isForgiven f = true
        · exact .inl hforgiven
        · exact .inr (.value rfl ht hf hr fun reason h => hforgiven (h ▸ rfl))
  · rcases overlay_fails f hover with hforgiven | ⟨es, rfl, ⟨e, he, hkey⟩, rfl⟩
    · exact .inl hforgiven
    · obtain ⟨text, ht, hload⟩ := of_bind_ok hd
      exact .inr (.key rfl ht hload he hkey)

/-- Loading with a file, where no stated setting goes by the name of the path. -/
theorem load_of_file (hnamed : (values.lookup pathName).isSome = false)
    (hbase : ofValues (stated values) = .ok base) :
    (load files (some path) values).outcome = match ofFile base files path with
      | .ok c => (.ok c, [])
      | .error f => if isForgiven f then (.ok base, [leftAside path f]) else (.error f, []) := by
  rw [load, hnamed, hbase]
  cases hfile : ofFile base files path with
  | ok c =>
    change (match ofFile base files path with
      | .ok c => _
      | .error f => _ : Logged Config).outcome = _
    rw [hfile]
    rfl
  | error f =>
    change (match ofFile base files path with
      | .ok c => _
      | .error f => _ : Logged Config).outcome = _
    rw [hfile]
    dsimp only
    split <;> rfl

/-- **What loading comes to** with stated settings that are accepted. -/
theorem load_cases (files : FileTree) (path : Option FilePath)
    (hbase : ofValues (stated values) = .ok base) :
    Settles files base path (load files path values).outcome ∨
      ∃ f, (load files path values).outcome = (.error f, []) ∧ Escapes files path values f := by
  cases hnamed : (values.lookup pathName).isSome with
  | true =>
    refine .inr ⟨.settingNamedPath, ?_, .named hnamed⟩
    rw [load, if_pos hnamed]
    rfl
  | false =>
    cases path with
    | none =>
      rw [load, hnamed, hbase]
      exact .inl .stated
    | some p =>
      rw [load_of_file hnamed hbase]
      cases hfile : ofFile base files p with
      | ok c => exact .inl (.used hfile)
      | error f =>
        dsimp only
        split
        · exact .inl (.leftAside hfile)
        · rename_i hf
          exact .inr ⟨f, rfl, (ofFile_fails f hfile).resolve_left hf⟩

/-- A file whose settings fail for a cause that is not forgiven stops the loading. -/
theorem stops_of_file (hbase : ofValues (stated values) = .ok base)
    (hfile : ofFile base files path = .error f) (hf : isForgiven f = false) :
    ∃ g, (load files (some path) values).outcome = (.error g, []) := by
  cases hnamed : (values.lookup pathName).isSome with
  | true =>
    refine ⟨.settingNamedPath, ?_⟩
    rw [load, if_pos hnamed]
    rfl
  | false =>
    refine ⟨f, ?_⟩
    rw [load_of_file hnamed hbase, hfile]
    exact if_neg (Bool.eq_false_iff.mp hf)

/-- Where something escapes, loading stops. -/
theorem Escapes.stops {path : Option FilePath} (h : Escapes files path values f)
    (hbase : ofValues (stated values) = .ok base) :
    ∃ g, (load files path values).outcome = (.error g, []) := by
  cases h with
  | named hnamed =>
    refine ⟨.settingNamedPath, ?_⟩
    rw [load, if_pos hnamed]
    rfl
  | value hp ht hf hr hvalue =>
    subst hp
    refine stops_of_file hbase (f := f) ?_ ?_
    · rw [ofFile, ht, ok_bind, hf]
      rfl
    · have hyaml := hr.ne_notYaml
      cases hr.scalarFault <;> first | rfl | exact absurd rfl hyaml | exact absurd rfl (hvalue _)
  | key hp ht hd he hkey =>
    subst hp
    refine stops_of_file hbase (f := .settingNameNotText) ?_ rfl
    rw [ofFile, ht, ok_bind, hd, ok_bind, overlay, Data.orEmpty_map]
    dsimp only
    rw [named_of_key he hkey]
    rfl

/-- **A config file is used or left aside exactly where nothing escapes**, whatever settings
are stated that are accepted; and what loading stops at is what escapes. -/
theorem load_falls_back (files : FileTree) (path : Option FilePath)
    (hbase : ofValues (stated values) = .ok base) :
    (Settles files base path (load files path values).outcome ↔
        ∀ f, ¬ Escapes files path values f) ∧
      ∀ f log, (load files path values).outcome = (.error f, log) →
        Escapes files path values f := by
  refine ⟨⟨fun h f hf => ?_, fun h => ?_⟩, fun f log hf => ?_⟩
  · obtain ⟨g, hg⟩ := hf.stops hbase
    rw [hg] at h
    cases h
  · rcases load_cases files path hbase with hsettles | ⟨f, -, hf⟩
    · exact hsettles
    · exact absurd hf (h f)
  · rcases load_cases files path hbase with hsettles | ⟨g, hg, hescapes⟩
    · rw [hf] at hsettles
      cases hsettles
    · rw [hf] at hg
      cases hg
      exact hescapes

/-- Stated settings of which one has no value. -/
def shelfValues : List (String × Data) := [("db_name", .str "shelf"), ("response_delay", .null)]

/-- What they come to. -/
def shelfConfig : Config := { defaults with dbName := "shelf" }

/-- They come back as they are where the file is missing. -/
theorem missing_falls_back : ofValues (stated shelfValues) = .ok shelfConfig ∧
    Settles .empty shelfConfig (some ⟨"", ["config.yaml"]⟩)
      (load .empty (some ⟨"", ["config.yaml"]⟩) shelfValues).outcome := by
  have hbase : ofValues (stated shelfValues) = .ok shelfConfig := rfl
  have hmissing : FileTree.empty.readText ⟨"", ["config.yaml"]⟩ = .error (.file .missing) := rfl
  refine ⟨hbase, (load_falls_back .empty _ hbase).1.mpr fun f hf => ?_⟩
  cases hf with
  | named h => cases h
  | value hp ht =>
    cases hp
    rw [hmissing] at ht
    cases ht
  | key hp ht =>
    cases hp
    rw [hmissing] at ht
    cases ht

/-- A tree with one file, which maps a number. -/
def numbered : FileTree := ⟨[(["config.yaml"], .file "1: 2\n".toUTF8.toList)]⟩

/-- Its key is no text, and loading stops at that. So not every config file is used or left
aside. -/
theorem load_numbered_key : ¬ ∀ (files : FileTree) (path : Option FilePath)
    (values : List (String × Data)) (base : Config), values.lookup pathName = none →
      ofValues (stated values) = .ok base →
        Settles files base path (load files path values).outcome := by
  intro h
  have hsettles := h numbered (some ⟨"", ["config.yaml"]⟩) [] defaults rfl rfl
  have hstops : (load numbered (some ⟨"", ["config.yaml"]⟩) []).outcome.1.toOption.isSome = false := by
    decide +kernel
  generalize (load numbered (some ⟨"", ["config.yaml"]⟩) []).outcome = outcome at hsettles hstops
  cases hsettles <;> cases hstops

end Config

end ApiMock
