import ApiMock.Files.Tree
import ApiMock.Proofs.Yaml.Loading
/-!
# Files — the value that a file writes

A file is read, decoded and loaded. Two kinds of failure are the ordinary
ones: the file system refuses, and the text is no YAML. Every other failure
is `Spoiled`: the path holds a null character, the bytes are no UTF-8, or
the text is refused although it is YAML (`value_fails`).
-/

namespace ApiMock

namespace FileTree

open Sequence Text

variable {t : FileTree} {p : FilePath} {f : Failure}

/-- The value of a file is spoiled: by the path, by the bytes, or by what its text writes. -/
inductive Spoiled (t : FileTree) (p : FilePath) : Failure → Prop where
  | nullByte (h : '\x00' ∈ p.text.toList) : Spoiled t p (.badValue "embedded null byte")
  | encoding {bytes : List UInt8} (hb : t.read p = .ok bytes) (hd : Utf8.decode? bytes = none) :
      Spoiled t p .encoding
  | value {text : String} {f : Failure} (ht : t.readText p = .ok text)
      (hf : Yaml.load text = .error f) (hr : Yaml.Refused text f) : Spoiled t p f

/-- What the file system refuses, and a path that cannot be asked for. -/
def Refuses (p : FilePath) (f : Failure) : Prop :=
  (∃ fault, f = .file fault) ∨ '\x00' ∈ p.text.toList ∧ f = .badValue "embedded null byte"

theorem locate_fails : FailsOnly (Refuses p) (t.locate p) := by
  rw [locate, failsOnly_bind]
  constructor
  · rw [checkText]
    split
    · rename_i h
      exact failsOnly_error.mpr (.inr ⟨List.contains_iff_mem.mp h, rfl⟩)
    · split
      · exact failsOnly_error.mpr (.inl ⟨_, rfl⟩)
      · exact failsOnly_ok
  · intro _ _
    cases t.walk (startOf p.root) p.names with
    | error fault => exact failsOnly_error.mpr (.inl ⟨fault, rfl⟩)
    | ok here => exact failsOnly_ok

theorem find_fails : FailsOnly (Refuses p) (t.find p) := by
  rw [find, failsOnly_bind]
  refine ⟨locate_fails, fun here _ => ?_⟩
  split
  · exact failsOnly_pure
  · exact failsOnly_throw.mpr (.inl ⟨_, rfl⟩)

theorem read_fails : FailsOnly (Refuses p) (t.read p) := by
  rw [read, failsOnly_bind]
  refine ⟨find_fails, fun e _ => ?_⟩
  cases e with
  | file bytes => exact failsOnly_pure
  | directory => exact failsOnly_throw.mpr (.inl ⟨_, rfl⟩)

/-- **What a file without a value fails for.** -/
theorem value_fails : FailsOnly (fun f => (∃ fault, f = .file fault) ∨ f = .notYaml ∨ Spoiled t p f)
    (do Yaml.load (← t.readText p)) := by
  rw [failsOnly_bind, readText, failsOnly_bind]
  refine ⟨⟨fun f hf => ?_, fun bytes hbytes => ?_⟩, fun text htext f hf => ?_⟩
  · rcases read_fails f hf with hfile | ⟨h, rfl⟩
    · exact .inl hfile
    · exact .inr (.inr (.nullByte h))
  · split
    · exact failsOnly_pure
    · rename_i hnone
      exact failsOnly_throw.mpr (.inr (.inr (.encoding hbytes hnone)))
  · rcases Yaml.load_fails f hf with rfl | hr
    · exact .inr (.inl rfl)
    · exact .inr (.inr (.value htext hf hr))

/-- A path with a null character leads nowhere. -/
theorem find_of_null (h : '\x00' ∈ p.text.toList) :
    t.find p = .error (.badValue "embedded null byte") := by
  rw [find, locate, checkText, if_pos (List.contains_iff_mem.mpr h)]
  rfl

/-- A spoiled file has no value, and fails for what it is spoiled by. -/
theorem Spoiled.value_eq (h : Spoiled t p f) : (do Yaml.load (← t.readText p)) = .error f := by
  cases h with
  | nullByte h =>
    rw [readText, read, find_of_null h]
    rfl
  | encoding hb hd =>
    rw [readText, hb, ok_bind, hd]
    rfl
  | value ht hf _ =>
    rw [ht]
    exact hf

/-- Such a failure is neither the file system's nor that of a text that is no YAML. -/
theorem Spoiled.not_file (h : Spoiled t p f) : ∀ fault, f ≠ .file fault := by
  cases h with
  | nullByte => nofun
  | encoding => nofun
  | value _ _ hr =>
    rintro fault rfl
    cases hr.scalarFault

theorem Spoiled.not_spec (h : Spoiled t p f) : ∀ fault, f ≠ .spec fault := by
  cases h with
  | nullByte => nofun
  | encoding => nofun
  | value _ _ hr =>
    rintro fault rfl
    cases hr.scalarFault

theorem Spoiled.ne_notYaml (h : Spoiled t p f) : f ≠ .notYaml := by
  cases h with
  | nullByte => nofun
  | encoding => nofun
  | value _ _ hr => exact hr.ne_notYaml

end FileTree

end ApiMock
