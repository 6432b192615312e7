import ApiMock.Proofs.Entries
import ApiMock.Proofs.Files.Values
import ApiMock.Proofs.Data.TextKeys
import ApiMock.Proofs.Stateful
import ApiMock.Proofs.Naming.Canonical
import ApiMock.Seed.Load
/-!
# Seed — what loading lets through

A seed file is used, or it is left aside with one warning, unless something
`Escapes`: the path is too long, the file is spoiled, or a key of its
mapping has no text (`load_settles`). The records of a file that is used
stand under canonical names, each of them once.
-/

namespace ApiMock

namespace Seed

open Sequence Entries

variable {files : FileTree} {path : FilePath} {f : Failure} {seed : Seed}

/-- Records stand under canonical names, each of them once. -/
structure IsKeyed (seed : Seed) : Prop where
  once : (keys seed).Nodup
  canonical : ∀ name ∈ keys seed, Naming.IsCanonical name.toList

/-- A file is left aside with one warning, or its records are there. -/
inductive Settles : Except Failure (Option Seed) × List LogEntry → Prop where
  | leftAside (message : String) : Settles (.ok none, [⟨.warning, .seed, message⟩])
  | used {seed : Seed} (log : List LogEntry) (h : seed.IsKeyed) : Settles (.ok (some seed), log)

/-- What loading lets through. -/
inductive Escapes (files : FileTree) (path : FilePath) : Failure → Prop where
  | path (h : files.find path = .error (.file .nameTooLong)) :
      Escapes files path (.file .nameTooLong)
  | file {f : Failure} (hc : files.contains path = .ok true) (h : files.Spoiled path f) :
      Escapes files path f
  | key {text : String} {es : List (Scalar × Data)} {e : Scalar × Data}
      (ht : files.readText path = .ok text) (hd : Yaml.load text = .ok (.map es)) (he : e ∈ es)
      (h : e.1.hasText = false) : Escapes files path tooManyDigits

/-! ## The records of a document -/

theorem IsKeyed.nil : IsKeyed [] :=
  ⟨List.nodup_nil, by simp [keys]⟩

theorem IsKeyed.put (h : seed.IsKeyed) (name : String) (records : List Data) :
    IsKeyed (Entries.put (Naming.pascal name) records seed) := by
  constructor
  · rw [keys_put]
    split
    · exact h.once
    · rename_i hnew
      rw [← List.concat_eq_append]
      exact h.once.concat hnew
  · intro key hkey
    rw [keys_put] at hkey
    split at hkey
    · exact h.canonical key hkey
    · rcases List.mem_append.mp hkey with hkey | hkey
      · exact h.canonical key hkey
      · rw [List.mem_singleton.mp hkey]
        exact Naming.isCanonical_pascal name

/-- **What an entry does**: its records are added, or it is reported and left out; if its
key has no text the run stops. -/
theorem addEntry_ends (h : seed.IsKeyed) (e : Scalar × Data) :
    Logged.Ends (fun f => e.1.hasText = false ∧ f = tooManyDigits)
      (fun s => e.1.hasText = true ∧ s.IsKeyed) (addEntry seed e) := by
  have hname : Ends (fun f => e.1.hasText = false ∧ f = tooManyDigits)
      (fun _ => e.1.hasText = true) e.1.plainText := by
    cases hname : e.1.plainText with
    | error f => exact Data.of_plainText_error hname
    | ok name => exact Data.plainText_ok_iff.mp ⟨name, hname⟩
  refine (Logged.Ends.lift hname).bind fun name htext => ?_
  split
  · rename_i records _
    exact .pure ⟨htext, h.put name records⟩
  · exact .report_bind (.pure ⟨htext, h⟩)

/-- **What the entries of a document do** to the seed so far. -/
theorem addEntries_ends (h : seed.IsKeyed) (es : List (Scalar × Data)) :
    Logged.Ends (fun f => (∃ e ∈ es, e.1.hasText = false) ∧ f = tooManyDigits)
      (fun s => (∀ e ∈ es, e.1.hasText = true) ∧ s.IsKeyed) (es.foldlM addEntry seed) := by
  induction es generalizing seed with
  | nil => exact .pure ⟨by simp, h⟩
  | cons e rest ih =>
    rw [List.foldlM_cons]
    have hentry := (addEntry_ends h e).mono (T := fun f =>
      (∃ e' ∈ e :: rest, e'.1.hasText = false) ∧ f = tooManyDigits)
      (fun f hf => ⟨⟨e, List.mem_cons_self, hf.1⟩, hf.2⟩) fun _ hs => hs
    refine hentry.bind fun s hs => (ih hs.2).mono ?_ ?_
    · rintro f ⟨⟨e', he', htext⟩, hf⟩
      exact ⟨⟨e', List.mem_cons_of_mem e he', htext⟩, hf⟩
    · rintro s' ⟨htexts, hs'⟩
      exact ⟨List.forall_mem_cons.mpr ⟨hs.1, htexts⟩, hs'⟩

/-! ## Loading -/

/-- The warning for a file that is left aside. -/
def leftAside (path : FilePath) (f : Failure) : LogEntry :=
  ⟨.warning, .seed, s!"Could not load seed file {path.text}: {f.inWarning}"⟩

theorem ofFile?_of_ok {log : List LogEntry} (h : (ofFile files path).outcome = (.ok seed, log)) :
    (ofFile? files path).outcome = (.ok (some seed), log) := by
  refine Logged.run_tryCatch_of_ok ?_
  rw [ExceptT.run_map, StateT.run_map, show (ofFile files path).run.run [] = _ from h]
  rfl

theorem ofFile?_of_error {log : List LogEntry} (h : (ofFile files path).outcome = (.error f, log)) :
    (ofFile? files path).outcome =
      if isForgiven f then (.ok none, log ++ [leftAside path f]) else (.error f, log) := by
  have hmap : (some <$> ofFile files path).run.run [] = (.error f, log) := by
    rw [ExceptT.run_map, StateT.run_map, show (ofFile files path).run.run [] = _ from h]
    rfl
  refine (Logged.run_tryCatch_of_error hmap).trans ?_
  split <;> rfl

/-- What a file gives that is there. -/
theorem load_of_contains (hc : files.contains path = .ok true) :
    (load files (some path)).outcome = match (ofFile? files path).outcome with
      | (.ok none, log) => (.ok none, log)
      | (.ok (some seed), log) =>
        (.ok (some seed), log ++ [⟨.debug, .seed, s!"Seed data loaded: {seed.summary}"⟩])
      | (.error f, log) => (.error f, log) := by
  rw [load, hc]
  change (ofFile? files path >>= _).run.run [] = _
  rcases hrun : (ofFile? files path).outcome with ⟨f | _ | seed, log⟩
  · exact Stateful.run_bind_of_error hrun
  · exact Stateful.run_bind_of_ok hrun
  · exact Stateful.run_bind_of_ok hrun

theorem ofFile_of_error (hd : (do Yaml.load (← files.readText path)) = .error f) :
    (ofFile files path).outcome = (.error f, []) := by
  rw [ofFile, hd]
  rfl

theorem ofFile_of_ok {d : Data} (hd : (do Yaml.load (← files.readText path)) = .ok d) :
    (ofFile files path).outcome = (ofDocument d).outcome := by
  rw [ofFile, hd]
  rfl

/-- Whether a spoiled file is forgiven: never. -/
theorem not_isForgiven (h : files.Spoiled path f) : isForgiven f = false := by
  cases h with
  | nullByte => rfl
  | encoding => rfl
  | value _ _ hr =>
    have hyaml := hr.ne_notYaml
    cases hr.scalarFault <;> first | rfl | exact absurd rfl hyaml

/-- A path that leads to something can be asked for. -/
theorem contains_of_readText {text : String} (ht : files.readText path = .ok text) :
    files.contains path = .ok true := by
  obtain ⟨bytes, hb, -⟩ := of_bind_ok ht
  obtain ⟨e, he, -⟩ := of_bind_ok hb
  rw [FileTree.contains, he]

theorem of_contains_error (h : files.contains path = .error f) :
    files.find path = .error (.file .nameTooLong) ∧ f = .file .nameTooLong := by
  rw [FileTree.contains] at h
  split at h
  · cases h
  · rename_i hfind
    cases h
    exact ⟨hfind, rfl⟩
  · cases h

/-- The records of a mapping that is read are used, or a key of it has no text. -/
theorem outcome_of_mapping (hc : files.contains path = .ok true) {es : List (Scalar × Data)}
    (hd : (do Yaml.load (← files.readText path)) = .ok (.map es)) :
    (∃ seed log, (load files (some path)).outcome = (.ok (some seed), log) ∧ seed.IsKeyed ∧
        ∀ e ∈ es, e.1.hasText = true) ∨
      ∃ log, (load files (some path)).outcome = (.error tooManyDigits, log) ∧
        ∃ e ∈ es, e.1.hasText = false := by
  have hends := addEntries_ends .nil es []
  have hfile := ofFile_of_ok hd
  rw [load_of_contains hc]
  rcases hrun : (ofDocument (.map es)).outcome with ⟨f | seed, log⟩
  · rw [hrun] at hfile
    rw [show (es.foldlM addEntry []).run.run [] = _ from hrun] at hends
    obtain ⟨he, rfl⟩ := hends
    rw [ofFile?_of_error hfile]
    exact .inr ⟨log, rfl, he⟩
  · rw [hrun] at hfile
    rw [show (es.foldlM addEntry []).run.run [] = _ from hrun] at hends
    rw [ofFile?_of_ok hfile]
    exact .inl ⟨seed, _, rfl, hends.2, hends.1⟩

/-- **What loading comes to.** -/
theorem load_cases : Settles (load files (some path)).outcome ∨
    ∃ f log, (load files (some path)).outcome = (.error f, log) ∧ Escapes files path f := by
  cases hc : files.contains path with
  | error f =>
    obtain ⟨hfind, rfl⟩ := of_contains_error hc
    refine .inr ⟨_, [], ?_, .path hfind⟩
    rw [load, hc]
    rfl
  | ok there =>
    cases there with
    | false =>
      rw [load, hc]
      exact .inl (.leftAside _)
    | true =>
      cases hd : (do Yaml.load (← files.readText path)) with
      | error f =>
        rw [load_of_contains hc, ofFile?_of_error (ofFile_of_error hd)]
        rcases files.value_fails f hd with ⟨fault, rfl⟩ | rfl | hspoiled
        · exact .inl (.leftAside _)
        · exact .inl (.leftAside _)
        · rw [not_isForgiven hspoiled]
          exact .inr ⟨f, [], rfl, .file hc hspoiled⟩
      | ok d =>
        cases d with
        | map es =>
          rcases outcome_of_mapping hc hd with ⟨seed, log, hrun, hkeyed, -⟩ | ⟨log, hrun, e, he, hkey⟩
          · rw [hrun]
            exact .inl (.used log hkeyed)
          · obtain ⟨text, ht, hload⟩ := of_bind_ok hd
            exact .inr ⟨_, log, hrun, .key ht hload he hkey⟩
        | _ =>
          rw [load_of_contains hc, ofFile?_of_error (ofFile_of_ok hd)]
          exact .inl (.leftAside _)

/-- Where something escapes, loading stops. -/
theorem Escapes.stops (h : Escapes files path f) :
    ∃ g log, (load files (some path)).outcome = (.error g, log) := by
  cases h with
  | path h =>
    refine ⟨.file .nameTooLong, [], ?_⟩
    rw [load, FileTree.contains, h]
    rfl
  | file hc h =>
    refine ⟨f, [], ?_⟩
    rw [load_of_contains hc, ofFile?_of_error (ofFile_of_error h.value_eq), not_isForgiven h]
    rfl
  | @key text es e ht hd he h =>
    have hvalue : (do Yaml.load (← files.readText path)) = .ok (.map es) := by
      rw [ht]
      exact hd
    rcases outcome_of_mapping (contains_of_readText ht) hvalue with
      ⟨_, _, _, _, htexts⟩ | ⟨log, hrun, -⟩
    · rw [htexts _ he] at h
      cases h
    · exact ⟨_, log, hrun⟩

/-- A tree with one file, of the byte 255. -/
def oneByte : FileTree := ⟨[(["seed.yaml"], .file [0xff])]⟩

end Seed

end ApiMock
