import ApiMock.OpenApi.Load
import ApiMock.Proofs.Data.TextKeys
import ApiMock.Proofs.Document.Accepted
import ApiMock.Proofs.Files.Values
/-!
# OpenApi — what loading lets through

Loading answers with a document or with a fault of the specification, unless
something `Escapes`: the file is spoiled, a key or the version has no text,
or a value holds itself (`load_answers`). A file of one byte that is no
UTF-8 shows that loading does not always answer.
-/

namespace ApiMock

namespace OpenApi

open Sequence

variable {files : FileTree} {path : FilePath} {document d : Data} {f : Failure}

/-- Loading answers: with a document that has texts for keys, or with a fault of the
specification. -/
def Answers (x : Except Failure Data) : Prop :=
  (∃ es, x = .ok (.map es) ∧ (Data.map es).TextKeyed) ∨ ∃ fault, x = .error (.spec fault)

/-- A version that has no text: the one that a document names, or the one it names in the
old way where it names no supported one. -/
inductive Untold (document : Data) : Prop where
  | version {d : Data} (hd : document.field? "openapi" = some d) (h : d.hasText = false)
  | oldVersion {text : String} {d : Data} (ht : versionText document = .ok text)
      (hv : Version.ofText? text = none) (hd : document.field? "swagger" = some d)
      (h : d.hasText = false)

/-- What loading lets through. -/
inductive Escapes (files : FileTree) (path : FilePath) : Failure → Prop where
  | file {f : Failure} (h : files.Spoiled path f) : Escapes files path f
  | keys {text : String} {es : List (Scalar × Data)} {f : Failure}
      (ht : files.readText path = .ok text) (hd : Yaml.load text = .ok (.map es))
      (h : (Data.map es).Unnamed f) : Escapes files path f
  | version {text : String} {es : List (Scalar × Data)} {document : Data}
      (ht : files.readText path = .ok text) (hd : Yaml.load text = .ok (.map es))
      (hk : (Data.map es).withTextKeys = .ok document) (h : Untold document) :
      Escapes files path tooManyDigits

/-! ## Accepting -/

/-- A value without a text. -/
theorem of_plainText_error {d : Data} (h : d.plainText = .error f) :
    d.hasText = false ∧ f = tooManyDigits := by
  rw [Data.plainText] at h
  split at h
  · cases h
  · rename_i hd
    cases h
    exact ⟨Bool.eq_false_iff.mpr hd, rfl⟩

theorem of_versionText_error (h : versionText document = .error f) :
    Untold document ∧ f = tooManyDigits := by
  rw [versionText] at h
  cases hd : document.field? "openapi" with
  | none =>
    rw [hd] at h
    cases h
  | some d =>
    rw [hd] at h
    obtain ⟨hd', rfl⟩ := of_plainText_error h
    exact ⟨.version hd hd', rfl⟩

theorem of_versionOf_error (h : versionOf document = .error f) :
    (∃ fault, f = .spec fault) ∨ Untold document ∧ f = tooManyDigits := by
  rcases of_bind_error h with h | ⟨text, ht, h⟩
  · exact .inr (of_versionText_error h)
  · split at h
    · cases h
    · rename_i old hv hold
      rcases of_bind_error h with h | ⟨shown, _, h⟩
      · obtain ⟨hd, rfl⟩ := of_plainText_error h
        exact .inr ⟨.oldVersion ht hv hold hd, rfl⟩
      · cases h
        exact .inl ⟨_, rfl⟩
    · cases h
      exact .inl ⟨_, rfl⟩

/-- An untold version stops the acceptance. -/
theorem Untold.versionOf_eq (h : Untold document) : versionOf document = .error tooManyDigits := by
  cases h with
  | version hd h => rw [versionOf, versionText, hd, Option.getD_some, Data.plainText, h]; rfl
  | oldVersion ht hv hd h =>
    rw [versionOf, ht, ok_bind, hv, hd]
    simp only [Data.plainText, h]
    rfl

theorem validate_of_keys {es : List (Scalar × Data)} (hk : (Data.map es).withTextKeys = .error f) :
    (validate (.map es)).outcome.1 = .error f := by
  rw [validate, hk]
  rfl

/-- With texts for keys the version is told first, and then the records are checked. -/
theorem validate_of_textKeyed {es : List (Scalar × Data)}
    (hk : (Data.map es).withTextKeys = .ok document) :
    (validate (.map es)).outcome.1 = (do
      let v ← versionOf document
      (fits v document).mapError fun m => .spec (.misshapen m.fault)
      return document) := by
  rw [validate, hk]
  change ((liftM (versionOf document) : Logged Version) >>= _).outcome.1 = _
  cases hv : versionOf document with
  | error f => rfl
  | ok v =>
    have hlift : ∀ k : Version → Logged Data,
        (liftM (Except.ok v : Except Failure Version) >>= k) = k v := fun _ => rfl
    rw [hlift, ok_bind]
    cases fits v document with
    | error m => rfl
    | ok u =>
      obtain ⟨text, ht, -⟩ := of_bind_ok hv
      rw [ht]
      rfl

/-- **What acceptance gives**, and what it stops at beside faults of the specification. -/
theorem validate_ends (raw : Data) :
    Ends (fun f => (∃ fault, f = .spec fault) ∨ ∃ es, raw = .map es ∧ (raw.Unnamed f ∨
        ∃ document, raw.withTextKeys = .ok document ∧ Untold document ∧ f = tooManyDigits))
      (fun document => (∃ es, document = .map es) ∧ document.TextKeyed)
      (validate raw).outcome.1 := by
  cases raw with
  | map es =>
    cases hk : (Data.map es).withTextKeys with
    | error f =>
      rw [validate_of_keys hk]
      exact .inr ⟨es, rfl, .inl (Data.unnamed_of_withTextKeys hk)⟩
    | ok document =>
      rw [validate_of_textKeyed hk]
      cases hv : versionOf document with
      | error f =>
        exact (of_versionOf_error hv).imp_right fun h => ⟨es, rfl, .inr ⟨document, rfl, h⟩⟩
      | ok v =>
        cases hfits : fits v document with
        | error m =>
          rw [ok_bind, hfits]
          exact .inl ⟨.misshapen m.fault, rfl⟩
        | ok u =>
          rw [ok_bind, hfits]
          obtain ⟨named, -, hnamed⟩ := of_bind_ok hk
          cases hnamed
          exact ⟨⟨_, rfl⟩, Data.textKeyed_of_withTextKeys hk⟩
  | _ => exact .inl ⟨.rootNotObject, rfl⟩

/-! ## Loading -/

theorem asSpecFault_eq (h : files.Spoiled path f) : asSpecFault path f = f := by
  rw [asSpecFault.eq_def]
  split
  · exact absurd rfl (h.not_file _)
  · exact absurd rfl h.ne_notYaml
  · rfl

theorem load_of_error (h : readDocument files path = .error f) :
    (load files path).outcome.1 = .error f := by
  rw [load, h]
  rfl

theorem load_of_ok (h : readDocument files path = .ok d) :
    (load files path).outcome.1 = (validate d).outcome.1 := by
  rw [load, h]
  rfl

theorem readDocument_eq_ok (h : readDocument files path = .ok d) :
    ∃ text, files.readText path = .ok text ∧ Yaml.load text = .ok d := by
  rw [readDocument] at h
  cases hd : (do Yaml.load (← files.readText path)) with
  | error f =>
    rw [hd] at h
    cases h
  | ok e =>
    rw [hd] at h
    cases h
    exact of_bind_ok hd

theorem readDocument_of_load {text : String} (ht : files.readText path = .ok text)
    (hd : Yaml.load text = .ok d) : readDocument files path = .ok d := by
  rw [readDocument, ht, ok_bind, hd]
  rfl

/-- What reading stops at: a fault of the specification, or the file is spoiled. -/
theorem readDocument_fails :
    FailsOnly (fun f => (∃ fault, f = .spec fault) ∨ files.Spoiled path f)
      (readDocument files path) := by
  intro f hf
  rw [readDocument] at hf
  cases hd : (do Yaml.load (← files.readText path)) with
  | ok d =>
    rw [hd] at hf
    cases hf
  | error g =>
    rw [hd] at hf
    cases hf
    rcases files.value_fails g hd with ⟨fault, rfl⟩ | rfl | h
    · exact .inl ⟨_, rfl⟩
    · exact .inl ⟨_, rfl⟩
    · rw [asSpecFault_eq h]
      exact .inr h

/-- Where something escapes, loading stops, and not with a fault of the specification. -/
theorem Escapes.stops (h : Escapes files path f) :
    ∃ g, (load files path).outcome.1 = .error g ∧ ∀ fault, g ≠ .spec fault := by
  cases h with
  | file h =>
    refine ⟨f, load_of_error ?_, h.not_spec⟩
    rw [readDocument, h.value_eq]
    exact congrArg Except.error (asSpecFault_eq h)
  | keys ht hd h =>
    rw [load_of_ok (readDocument_of_load ht hd)]
    cases hk : (Data.map _).withTextKeys with
    | error g => exact ⟨g, validate_of_keys hk, (Data.unnamed_of_withTextKeys hk).not_spec⟩
    | ok document => exact absurd h (Data.withTextKeys_isOk_iff.mp ⟨document, hk⟩ f)
  | version ht hd hk h =>
    refine ⟨tooManyDigits, ?_, nofun⟩
    rw [load_of_ok (readDocument_of_load ht hd), validate_of_textKeyed hk, h.versionOf_eq]
    rfl

/-- **What loading stops at** is a fault of the specification, or escapes. -/
theorem load_fails (hf : (load files path).outcome.1 = .error f) :
    (∃ fault, f = .spec fault) ∨ Escapes files path f := by
  cases hd : readDocument files path with
  | error g =>
    rw [load_of_error hd] at hf
    cases hf
    exact (readDocument_fails f hd).imp_right .file
  | ok d =>
    obtain ⟨text, ht, hload⟩ := readDocument_eq_ok hd
    have hends := validate_ends d
    rw [load_of_ok hd] at hf
    rw [hf] at hends
    rcases hends with hspec | ⟨es, rfl, hkeys | ⟨document, hk, hversion, rfl⟩⟩
    · exact .inl hspec
    · exact .inr (.keys ht hload hkeys)
    · exact .inr (.version ht hload hk hversion)

/-- **Loading answers exactly where nothing escapes**, with a document that has texts for
keys or with a fault of the specification; and what it stops at else is what escapes. -/
theorem load_answers (files : FileTree) (path : FilePath) :
    (Answers (load files path).outcome.1 ↔ ∀ f, ¬ Escapes files path f) ∧
      ∀ f, (load files path).outcome.1 = .error f →
        (∃ fault, f = .spec fault) ∨ Escapes files path f := by
  refine ⟨⟨fun h f hf => ?_, fun h => ?_⟩, fun f => load_fails⟩
  · obtain ⟨g, hg, hspec⟩ := hf.stops
    rcases h with ⟨es, hes, -⟩ | ⟨fault, hfault⟩
    · rw [hg] at hes
      cases hes
    · rw [hg] at hfault
      cases hfault
      exact hspec fault rfl
  · cases hload : (load files path).outcome.1 with
    | error f =>
      obtain ⟨fault, rfl⟩ := (load_fails hload).resolve_right (h f)
      exact .inr ⟨fault, rfl⟩
    | ok document =>
      cases hd : readDocument files path with
      | error g =>
        rw [load_of_error hd] at hload
        cases hload
      | ok d =>
        have hends := validate_ends d
        rw [load_of_ok hd] at hload
        rw [hload] at hends
        obtain ⟨⟨es, rfl⟩, hkeyed⟩ := hends
        exact .inl ⟨es, rfl, hkeyed⟩

/-- A tree with one file, of the byte 255. -/
def oneByte : FileTree := ⟨[(["spec.yaml"], .file [0xff])]⟩

/-- Its file is no UTF-8, and loading stops at that. So loading does not always answer. -/
theorem load_unanswered : ¬ ∀ files path, Answers (load files path).outcome.1 := by
  intro h
  have hstops : (load oneByte ⟨"", ["spec.yaml"]⟩).outcome.1 = .error .encoding := by rfl
  have := h oneByte ⟨"", ["spec.yaml"]⟩
  rw [hstops] at this
  rcases this with ⟨es, hes, -⟩ | ⟨fault, hfault⟩
  · cases hes
  · cases hfault

end OpenApi

end ApiMock
