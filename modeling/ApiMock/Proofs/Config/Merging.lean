import ApiMock.Proofs.Config.Loading
import ApiMock.Proofs.Config.Reading
/-!
# Config — files that are merged

The entries of a config file go by either name of a setting, in any order, and the last of those
that spell a setting is the only one that is read. If all of these are accepted, each setting takes
the value of its own, or else the stated one, or else the default. If any is refused, nothing of
the file is taken: the stated settings come back with one warning (`load_merges`).
-/

namespace ApiMock

open Sequence Entries

namespace Config

variable {files : FileTree} {path : FilePath} {base c : Config} {s t : Setting} {key text : String}
  {values entries : List (String × Data)}

namespace Setting

/-! ## Names -/

theorem name_ne_alias (s t : Setting) : s.name ≠ t.alias := by
  cases s <;> cases t <;> decide

theorem name_injective : Function.Injective Setting.name := by
  intro s t h
  cases s <;> cases t <;> first | rfl | exact absurd h (by decide)

theorem alias_injective : Function.Injective Setting.alias := by
  intro s t h
  cases s <;> cases t <;> first | rfl | exact absurd h (by decide)

/-- The value of the last entry that spells a setting, in either way. -/
def last? (s : Setting) (entries : List (String × Data)) : Option Data :=
  (entries.filter fun e => e.1 = s.name || e.1 = s.alias).getLast?.map Prod.snd

/-- A key of the generated files means a setting, any other key itself. -/
theorem settingName_cases (key : String) :
    (∃ t : Setting, key = t.alias ∧ settingName key = t.name) ∨
      (∀ t : Setting, key ≠ t.alias) ∧ settingName key = key := by
  rw [settingName]
  cases hfound : all.find? fun s => s.alias = key with
  | some t =>
    have hkey : t.alias = key := by simpa using List.find?_some hfound
    exact .inl ⟨t, hkey.symm, rfl⟩
  | none =>
    refine .inr ⟨?_, rfl⟩
    rintro t rfl
    simpa using List.find?_eq_none.mp hfound t t.mem_all

/-- A key means a setting if it is one of its names. -/
theorem settingName_eq_iff : settingName key = s.name ↔ key = s.name ∨ key = s.alias := by
  rcases settingName_cases key with ⟨t, rfl, ht⟩ | ⟨hkey, ht⟩
  · have hname : t.alias ≠ s.name := (name_ne_alias s t).symm
    rw [ht, name_injective.eq_iff, alias_injective.eq_iff, or_iff_right hname]
  · rw [ht, or_iff_left (hkey s)]

/-- No key means one by the name of the generated files. -/
theorem settingName_ne_alias : settingName key ≠ s.alias := by
  rcases settingName_cases key with ⟨t, -, ht⟩ | ⟨hkey, ht⟩
  · rw [ht]
    exact name_ne_alias t s
  · rw [ht]
    exact hkey s

/-! ## What settings are given -/

/-- The last entry that means a setting is the last that spells it. -/
theorem lookup_named (s : Setting) (entries : List (String × Data)) :
    (entries.map fun e => (settingName e.1, e.2)).reverse.lookup s.name = s.last? entries := by
  induction entries using List.reverseRecOn with
  | nil => rfl
  | append_singleton es e ih =>
    rw [List.map_append, List.reverse_append, List.map_singleton, List.reverse_singleton,
      List.singleton_append, List.lookup_cons, last?, List.filter_append]
    by_cases hspelled : e.1 = s.name ∨ e.1 = s.alias
    · have hname : (s.name == settingName e.1) = true :=
        beq_iff_eq.mpr (settingName_eq_iff.mpr hspelled).symm
      rw [hname, List.filter_cons_of_pos (by simpa using hspelled), List.filter_nil,
        List.getLast?_concat]
      rfl
    · have hname : (s.name == settingName e.1) = false :=
        beq_eq_false_iff_ne.mpr fun h => hspelled (settingName_eq_iff.mp h.symm)
      rw [hname, List.filter_cons_of_neg (by simpa using hspelled), List.filter_nil,
        List.append_nil, ih, last?]

end Setting

theorem keys_values (c : Config) : keys c.values = Setting.all.map Setting.name := by
  rw [values, keys, List.map_map]
  rfl

theorem nodup_keys_values (c : Config) : (keys c.values).Nodup := by
  rw [keys_values]
  exact Setting.nodup_all.map Setting.name_injective

/-- The values of settings, with the entries of a file laid over them. -/
def under (base : Config) (entries : List (String × Data)) : List (String × Data) :=
  merge base.values (entries.map fun e => (settingName e.1, e.2))

/-- **Over some settings a file gives each setting its last entry**, or else the value there is. -/
theorem given?_under (base : Config) (s : Setting) (entries : List (String × Data)) :
    s.given? (base.under entries) = some (s.name, (s.last? entries).getD (base.value s)) := by
  have halias : (base.under entries).lookup s.alias = none := by
    rw [under, lookup_eq_none_iff, keys_merge (nodup_keys_values base), List.mem_eraseDups,
      List.mem_append, keys_values]
    rintro (h | h)
    · obtain ⟨t, -, ht⟩ := List.mem_map.mp h
      exact Setting.name_ne_alias t s ht
    · rw [keys, List.map_map] at h
      obtain ⟨e, -, he⟩ := List.mem_map.mp h
      exact Setting.settingName_ne_alias he
  have hbase : base.values.lookup s.name = some (base.value s) :=
    lookup_of_mem (nodup_keys_values base)
      (List.mem_map.mpr ⟨s, s.mem_all, rfl⟩ : (s.name, base.value s) ∈ base.values)
  rw [Setting.given?, halias, under, lookup_merge, s.lookup_named, hbase]
  cases s.last? entries <;> rfl

theorem named_object (entries : List (String × Data)) :
    named (entries.map fun e => (.str e.1, e.2)) =
      .ok (ofList (entries.map fun e => (settingName e.1, e.2))) := by
  rw [named, List.mapM_map]
  have hall : entries.mapM (fun e => (pure (settingName e.1, e.2) : Except Failure _)) =
    .ok (entries.map fun e => (settingName e.1, e.2)) := List.mapM_pure
  exact congrArg (· >>= fun pairs => pure (ofList pairs)) hall

/-- The settings of a mapping over others. -/
theorem overlay_object (base : Config) (entries : List (String × Data)) :
    overlay base (.object entries) = ofValues (base.under entries) := by
  rw [overlay, Data.object, Data.orEmpty_map]
  dsimp only
  rw [named_object, ok_bind, merge_ofList (nodup_keys_values base), ← under]

/-- Only the last entries count. -/
theorem overlay_congr {others : List (String × Data)}
    (h : ∀ s : Setting, s.last? entries = s.last? others) :
    overlay base (.object entries) = overlay base (.object others) := by
  rw [overlay_object, overlay_object]
  exact ofValues_congr fun s => by rw [given?_under, given?_under, h]

/-! ## Files that are merged -/

/-- Where the value of a setting is from, as it is read: from the last entry of the file that
spells it, or else from what is stated, or else it is the default. -/
inductive Setting.Origin (values entries : List (String × Data)) (s : Setting) : Data → Prop where
  | file {d v : Data} (hlast : s.last? entries = some d) (hv : s.validate d = .ok v) :
      Origin values entries s v
  | override {name : String} {d v : Data} (hlast : s.last? entries = none)
      (hgiven : s.given? (stated values) = some (name, d)) (hv : s.validate d = .ok v) :
      Origin values entries s v
  | default {v : Data} (hlast : s.last? entries = none) (hgiven : s.given? (stated values) = none)
      (hv : s.validate (defaults.value s) = .ok v) (hsame : v.sameKey (defaults.value s) = true) :
      Origin values entries s v

/-- The faults of the last entries that are refused. -/
def refusals (entries : List (String × Data)) : List FieldFault :=
  Setting.all.filterMap fun s => (s.last? entries).bind (s.refusal? s.name)

/-- What loading comes to with a file of some entries: all of the settings are merged, or those of
the file are left aside, since a last entry is refused. -/
inductive Merged (values entries : List (String × Data)) (base : Config) (path : FilePath) :
    Except Failure Config × List LogEntry → Prop where
  | whole {c : Config} (h : ∀ s : Setting, s.Origin values entries (c.value s)) :
      Merged values entries base path (.ok c, [])
  | nothing {s : Setting} {d : Data} {reason : String} (hlast : s.last? entries = some d)
      (hrefused : s.validate d = .error reason) :
      Merged values entries base path (.ok base, [leftAside path (.refused (refusals entries))])

/-- A stated setting, or one left to its default, is accepted again. -/
theorem Setting.Origin.of_base (hbase : ofValues (stated values) = .ok base)
    (hlast : s.last? entries = none) :
    ∃ v, s.validate (base.value s) = .ok v ∧ s.Origin values entries v := by
  have htakes := takes_of_ofValues hbase s
  generalize base.value s = v at htakes
  cases htakes with
  | given hgiven hv => exact ⟨v, validate_idem hv, .override hlast hgiven hv⟩
  | missing hgiven =>
    obtain ⟨v, hv, hsame⟩ := validate_default s
    exact ⟨v, hv, .default hlast hgiven hv hsame⟩

/-- Over the stated settings a setting takes its value from one of these. -/
theorem Setting.Origin.of_takes {v : Data} (hbase : ofValues (stated values) = .ok base)
    (h : s.Takes (base.under entries) v) : s.Origin values entries v := by
  cases h with
  | given hgiven hv =>
    rw [given?_under] at hgiven
    cases hgiven
    cases hlast : s.last? entries with
    | some d =>
      rw [hlast, Option.getD_some] at hv
      exact .file hlast hv
    | none =>
      rw [hlast, Option.getD_none] at hv
      obtain ⟨v', hv', horigin⟩ := of_base hbase hlast
      rw [hv] at hv'
      exact Except.ok.inj hv' ▸ horigin
  | missing hgiven =>
    rw [given?_under] at hgiven
    cases hgiven

/-- It has a fault only for its last entry. -/
theorem fault?_under (hbase : ofValues (stated values) = .ok base) (s : Setting) :
    s.fault? (base.under entries) = (s.last? entries).bind (s.refusal? s.name) := by
  rw [Setting.fault?, given?_under, Option.bind_some]
  cases hlast : s.last? entries with
  | none =>
    obtain ⟨v, hv, -⟩ := Setting.Origin.of_base hbase hlast
    exact Setting.refusal?_eq_none_iff.mpr ⟨v, hv⟩
  | some d => rfl

/-- That entry was refused then. -/
theorem exists_refused {last : Option Data} {name : String}
    (h : last.bind (s.refusal? name) ≠ none) :
    ∃ d reason, last = some d ∧ s.validate d = .error reason := by
  cases last with
  | none => exact absurd rfl h
  | some d =>
    cases hrefused : s.validate d with
    | ok v => exact absurd (Setting.refusal?_eq_none_iff.mpr ⟨v, hrefused⟩) h
    | error reason => exact ⟨d, reason, rfl, hrefused⟩

theorem ofFile_object (base : Config) (htext : files.readText path = .ok text)
    (hload : Yaml.load text = .ok (.object entries)) :
    ofFile base files path = overlay base (.object entries) := by
  rw [ofFile, htext, ok_bind, hload, ok_bind]

/-- **A config file is merged as a whole or not at all**, over stated settings that are accepted.
No entry counts but the last that spells a setting. -/
theorem load_merges (hnamed : values.lookup pathName = none)
    (hbase : ofValues (stated values) = .ok base) (htext : files.readText path = .ok text)
    (hload : Yaml.load text = .ok (.object entries)) :
    Merged values entries base path (load files (some path) values).outcome ∧
      ∀ (files' : FileTree) (text' : String) (entries' : List (String × Data)),
        files'.readText path = .ok text' → Yaml.load text' = .ok (.object entries') →
          (∀ s : Setting, s.last? entries' = s.last? entries) →
            (load files' (some path) values).outcome = (load files (some path) values).outcome := by
  have hpath : (values.lookup pathName).isSome = false := by rw [hnamed, Option.isSome_none]
  have hfile := ofFile_object base htext hload
  constructor
  · rw [load_of_file hpath hbase, hfile, overlay_object]
    rcases ofValues_cases (base.under entries) with ⟨c, hc, htakes⟩ | ⟨⟨s, hs⟩, herror⟩
    · rw [hc]
      exact .whole fun s => .of_takes hbase (htakes s)
    · simp only [fault?_under hbase] at hs herror
      obtain ⟨d, reason, hlast, hrefused⟩ := exists_refused hs
      rw [herror]
      exact .nothing hlast hrefused
  · intro files' text' entries' htext' hload' hlast
    rw [load_of_file hpath hbase, load_of_file hpath hbase, hfile, ofFile_object base htext' hload',
      overlay_congr hlast]

/-- The entries that map texts to texts, if all of them do. -/
def texts? : List (Scalar × Data) → Option (List (String × String))
  | [] => some []
  | (.str key, .scalar (.str value)) :: rest => (texts? rest).map ((key, value) :: ·)
  | _ :: _ => none

theorem of_texts? {es : List (Scalar × Data)} {texts : List (String × String)}
    (h : texts? es = some texts) : Data.map es = .object (texts.map fun e => (e.1, .str e.2)) := by
  rw [Data.object, List.map_map]
  congr 1
  induction es generalizing texts with
  | nil =>
    cases h
    rfl
  | cons e rest ih =>
    unfold texts? at h
    split at h
    · rename_i heq
      cases heq
    · rename_i heq
      cases heq
      obtain ⟨others, hothers, rfl⟩ := Option.map_eq_some_iff.mp h
      rw [List.map_cons, ← ih hothers]
      rfl
    · cases h

/-- Entries that map texts. -/
def textEntries (texts : List (String × String)) : List (String × Data) :=
  texts.map fun e => (e.1, .str e.2)

/-- A tree with one file. -/
def configured (text : String) : FileTree := ⟨[(["config.yaml"], .file text.toUTF8.toList)]⟩

/-- Its path. -/
def configPath : FilePath := ⟨"", ["config.yaml"]⟩

/-- The file is read, and its entries are these. -/
theorem configured_loads (text : String) (texts : List (String × String))
    (htext : ((configured text).readText configPath).toOption = some text)
    (hload : ((Yaml.load text).toOption.bind fun d => d.entries.toOption.bind texts?) =
      some texts) :
    (configured text).readText configPath = .ok text ∧
      Yaml.load text = .ok (.object (textEntries texts)) := by
  constructor
  · cases hread : (configured text).readText configPath with
    | error f =>
      rw [hread] at htext
      cases htext
    | ok t =>
      rw [hread] at htext
      rw [Option.some.inj htext]
  · obtain ⟨d, hd, hentries⟩ := of_toOption_bind hload
    obtain ⟨es, hes, htexts⟩ := of_toOption_bind hentries
    cases d with
    | map fs =>
      cases hes
      rw [hd, of_texts? htexts, textEntries]
    | _ => cases hes

/-- Two stated settings. -/
def statedHere : List (String × Data) := [("db_name", .str "here"), ("enable_logging", .bool true)]

/-- What they come to. -/
def hereConfig : Config := { defaults with dbName := "here", enableLogging := true }

/-- Entries that spell a setting in both ways, first with a value that would be refused. -/
def mended : List (String × String) :=
  [("responseDelay", "none"), ("dbName", "there"), ("response_delay", "5"), ("port", "x")]

/-- The file with them. -/
def mendedText : String := "responseDelay: none\ndbName: there\nresponse_delay: '5'\nport: x\n"

/-- Entries that spell it with that value last. -/
def broken : List (String × String) :=
  [("response_delay", "5"), ("dbName", "there"), ("responseDelay", "none")]

/-- The file with them. -/
def brokenText : String := "response_delay: '5'\ndbName: there\nresponseDelay: none\n"

/-- The one file is merged as a whole, and of the other nothing is taken. -/
theorem mended_merged :
    let settings := fun c : Config => (c.dbName, c.responseDelay, c.enableLogging)
    let mendedOutcome := (load (configured mendedText) (some configPath) statedHere).outcome
    let brokenOutcome := (load (configured brokenText) (some configPath) statedHere).outcome
    Merged statedHere (textEntries mended) hereConfig configPath mendedOutcome ∧
      mendedOutcome.1.toOption.map settings = some ("there", 5, true) ∧
      Merged statedHere (textEntries broken) hereConfig configPath brokenOutcome ∧
      brokenOutcome.1.toOption.map settings = some ("here", 200, true) := by
  have hbase : ofValues (stated statedHere) = .ok hereConfig := rfl
  obtain ⟨htext, hload⟩ :=
    configured_loads mendedText mended (by decide +kernel) (by decide +kernel)
  obtain ⟨htext', hload'⟩ :=
    configured_loads brokenText broken (by decide +kernel) (by decide +kernel)
  exact ⟨(load_merges rfl hbase htext hload).1, by decide +kernel,
    (load_merges rfl hbase htext' hload').1, by decide +kernel⟩

end Config

end ApiMock
