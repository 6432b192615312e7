import ApiMock.Files.Tree
import ApiMock.Proofs.Entries
import ApiMock.Proofs.Sequence
/-!
# Files — what changes to a tree keep

Where a path leads does not depend on the tree, if it leads anywhere
(`locate_eq`), and a path that leads somewhere goes on doing so while
directories stay directories. A directory is only made where nothing stands
(`Extends`), and a file only written where no directory does. So whatever is
done a tree grows (`Grown`): directories and files stay what they are.
-/

namespace ApiMock

namespace FileTree

open Sequence

variable {t t' t'' : FileTree} {p : FilePath} {here there : Location} {names : List String}
  {e : FileEntry} {bytes : List UInt8} {f : Failure}

/-! ## Where a path leads -/

/-- The place that a name leads to. -/
def onward (here : Location) (name : String) : Location :=
  if FilePath.isIdle name then here else if name = ".." then above here else here ++ [name]

/-- The place that a path leads to, whatever stands on the way. -/
def destination (p : FilePath) : Location := p.names.foldl onward (startOf p.root)

/-- A step of a walk is made from a directory. -/
theorem walk_cons {name : String} {rest : List String}
    (h : t.walk here (name :: rest) = .ok there) :
    t.entry? here = some .directory ∧ t.walk (onward here name) rest = .ok there ∧
      ∀ t' : FileTree, t'.entry? here = some .directory →
        t'.walk here (name :: rest) = t'.walk (onward here name) rest := by
  rw [walk] at h
  cases hentry : t.entry? here with
  | none =>
    rw [hentry] at h
    cases h
  | some entry =>
    cases entry with
    | file bytes =>
      rw [hentry] at h
      cases h
    | directory =>
      simp only [hentry] at h
      have hlong : ¬ FilePath.isIdle name = true → name ≠ ".." →
          ¬ longestName < byteCount name := by
        intro hidle hup hlong
        rw [if_neg hidle, if_neg hup, if_pos hlong] at h
        cases h
      refine ⟨rfl, ?_, fun t' ht' => ?_⟩
      · rw [onward]
        split_ifs at h ⊢ <;> exact h
      · rw [walk, ht', onward]
        simp only
        split_ifs with hidle hup hname
        · rfl
        · rfl
        · exact absurd hname (hlong hidle hup)
        · rfl

/-- **A walk that gets there gets to one place.** -/
theorem walk_eq (h : t.walk here names = .ok there) : there = names.foldl onward here := by
  induction names generalizing here with
  | nil =>
    cases h
    rfl
  | cons name rest ih => exact ih (walk_cons h).2.1

/-- A path that leads somewhere leads to its destination. -/
theorem locate_eq (h : t.locate p = .ok here) : here = destination p := by
  obtain ⟨-, -, h⟩ := of_bind_ok h
  cases hwalk : t.walk (startOf p.root) p.names with
  | error fault =>
    rw [hwalk] at h
    cases h
  | ok there =>
    rw [hwalk] at h
    cases h
    exact walk_eq hwalk

/-! ## Growing trees -/

/-- Directories stay directories, and files stay files. -/
structure Grown (t t' : FileTree) : Prop where
  directory : ∀ here, t.entry? here = some .directory → t'.entry? here = some .directory
  file : ∀ here bytes, t.entry? here = some (.file bytes) →
    ∃ bytes', t'.entry? here = some (.file bytes')

theorem Grown.refl : Grown t t := ⟨fun _ => id, fun _ bytes h => ⟨bytes, h⟩⟩

theorem Grown.trans (h : Grown t t') (h' : Grown t' t'') : Grown t t'' where
  directory here hd := h'.directory here (h.directory here hd)
  file here bytes hf := by
    obtain ⟨bytes', hf⟩ := h.file here bytes hf
    exact h'.file here bytes' hf

/-- A walk that gets there does so in a tree that has grown. -/
theorem Grown.walk (h : Grown t t') (hwalk : t.walk here names = .ok there) :
    t'.walk here names = .ok there := by
  induction names generalizing here with
  | nil => exact hwalk
  | cons name rest ih =>
    obtain ⟨hentry, honward, hsame⟩ := walk_cons hwalk
    rw [hsame t' (h.directory here hentry)]
    exact ih honward

theorem Grown.locate (h : Grown t t') (hp : t.locate p = .ok here) : t'.locate p = .ok here := by
  obtain ⟨u, hcheck, hp⟩ := of_bind_ok hp
  rw [FileTree.locate, hcheck]
  cases hwalk : t.walk (startOf p.root) p.names with
  | error fault =>
    rw [hwalk] at hp
    cases hp
  | ok there =>
    rw [hwalk] at hp
    cases hp
    change (t'.walk (startOf p.root) p.names).mapError Failure.file = _
    rw [h.walk hwalk]
    rfl

/-- What stands where a path leads, if anything does. -/
theorem find_eq_ok_iff :
    t.find p = .ok e ↔ ∃ here, t.locate p = .ok here ∧ t.entry? here = some e := by
  constructor
  · intro h
    obtain ⟨here, hp, h⟩ := of_bind_ok h
    refine ⟨here, hp, ?_⟩
    cases hentry : t.entry? here with
    | none =>
      rw [hentry] at h
      cases h
    | some entry =>
      rw [hentry] at h
      cases h
      rfl
  · rintro ⟨here, hp, hentry⟩
    rw [find, hp, ok_bind, hentry]
    rfl

/-- A directory that a path leads to stays one. -/
theorem Grown.find_directory (h : Grown t t') (hp : t.find p = .ok .directory) :
    t'.find p = .ok .directory := by
  obtain ⟨here, hp, hentry⟩ := find_eq_ok_iff.mp hp
  exact find_eq_ok_iff.mpr ⟨here, h.locate hp, h.directory here hentry⟩

/-! ## Single changes -/

/-- A change is seen at its place only. -/
theorem entry?_put (h : isFixed here = false) :
    entry? (t.put here e) there = if there = here then some e else t.entry? there := by
  unfold entry? put
  split
  · rename_i hfixed
    have hne : there ≠ here := by
      rintro rfl
      rw [h] at hfixed
      cases hfixed
    rw [if_neg hne]
  · split
    · rename_i heq
      rw [heq, Entries.lookup_put_self]
    · rename_i hne
      rw [Entries.lookup_put_of_ne hne]

/-- A place where no directory stands is not one of those that are always directories. -/
theorem isFixed_eq_false (h : t.entry? here ≠ some .directory) : isFixed here = false := by
  rw [← Bool.not_eq_true]
  intro hfixed
  exact h (if_pos hfixed)

/-- The second tree has everything of the first, and besides directories. -/
def Extends (t t' : FileTree) : Prop :=
  ∀ here, t'.entry? here = t.entry? here ∨ t.entry? here = none ∧ t'.entry? here = some .directory

theorem Extends.refl : Extends t t := fun _ => .inl rfl

theorem Extends.trans (h : Extends t t') (h' : Extends t' t'') : Extends t t'' := by
  intro here
  rcases h here with h | ⟨hnone, h⟩
  · rcases h' here with h' | ⟨hnone, h'⟩
    · exact .inl (h'.trans h)
    · exact .inr ⟨h ▸ hnone, h'⟩
  · rcases h' here with h' | ⟨hnone', -⟩
    · exact .inr ⟨hnone, h'.trans h⟩
    · cases h.symm.trans hnone'

theorem Extends.grown (h : Extends t t') : Grown t t' where
  directory here hd := by
    rcases h here with h | ⟨hnone, -⟩
    · exact h.trans hd
    · cases hnone.symm.trans hd
  file here bytes hf := by
    rcases h here with h | ⟨hnone, -⟩
    · exact ⟨bytes, h.trans hf⟩
    · cases hnone.symm.trans hf

/-- **A directory is made where nothing stands.** -/
theorem of_makeDirectory (h : t.makeDirectory p = .ok t') :
    Extends t t' ∧ t'.find p = .ok .directory := by
  obtain ⟨here, hp, h⟩ := of_bind_ok h
  cases hentry : t.entry? here with
  | some entry =>
    rw [hentry] at h
    cases h
  | none =>
    rw [hentry] at h
    cases h
    have hfixed : isFixed here = false := isFixed_eq_false (by rw [hentry]; exact nofun)
    have hextends : Extends t (t.put here .directory) := by
      intro there
      rw [entry?_put hfixed]
      split
      · rename_i heq
        exact .inr ⟨heq ▸ hentry, rfl⟩
      · exact .inl rfl
    refine ⟨hextends, find_eq_ok_iff.mpr ⟨here, hextends.grown.locate hp, ?_⟩⟩
    rw [entry?_put hfixed, if_pos rfl]

theorem find_of_isDirectory (h : t.isDirectory p = true) : t.find p = .ok .directory := by
  rw [isDirectory] at h
  split at h
  · assumption
  · cases h

/-- So it is if it may be there before. -/
theorem of_orStanding (h : orStanding t p (t.makeDirectory p) = .ok t') :
    Extends t t' ∧ t'.find p = .ok .directory := by
  cases hmade : t.makeDirectory p with
  | ok made =>
    rw [hmade, orStanding] at h
    · cases h
      exact of_makeDirectory hmade
    · exact nofun
  | error f =>
    rw [hmade] at h
    cases f with
    | file fault =>
      rw [orStanding] at h
      split at h
      · rename_i hdirectory
        cases h
        exact ⟨.refl, find_of_isDirectory hdirectory⟩
      · cases h
    | _ => cases h

/-- The tree once a change came to an outcome. -/
theorem finish_spec {r : Except Failure FileTree} {P : FileTree → Prop}
    (h : ∀ t', r = .ok t' → Extends t t' ∧ P t') :
    Extends t (makeDirectoriesUpTo.finish t r).1 ∧
      ((makeDirectoriesUpTo.finish t r).2 = .ok () → P (makeDirectoriesUpTo.finish t r).1) := by
  cases r with
  | error f => exact ⟨.refl, nofun⟩
  | ok made => exact ⟨(h made rfl).1, fun _ => (h made rfl).2⟩

/-- **Making directories adds directories and nothing else**, whatever comes of it. If it succeeds
the path leads to a directory. -/
theorem makeDirectoriesUpTo_spec (count : Nat) :
    Extends t (t.makeDirectoriesUpTo p count).1 ∧
      ((t.makeDirectoriesUpTo p count).2 = .ok () →
        (t.makeDirectoriesUpTo p count).1.find ⟨p.root, p.names.take count⟩ = .ok .directory) := by
  induction count generalizing t with
  | zero =>
    rw [makeDirectoriesUpTo, List.take_zero]
    exact finish_spec fun made hmade => of_orStanding hmade
  | succ count ih =>
    have hstanding : ∀ t : FileTree, ∀ made,
        orStanding t ⟨p.root, p.names.take (count + 1)⟩
          (t.makeDirectory ⟨p.root, p.names.take (count + 1)⟩) = .ok made →
        Extends t made ∧ made.find ⟨p.root, p.names.take (count + 1)⟩ = .ok .directory :=
      fun t made hmade => of_orStanding hmade
    rw [makeDirectoriesUpTo]
    split
    · -- what is above is made first, and then the directory itself
      obtain ⟨habove, -⟩ := @ih t
      split
      · rename_i t₁ f hmade
        rw [hmade] at habove
        exact ⟨habove, nofun⟩
      · rename_i t₁ hmade
        rw [hmade] at habove
        obtain ⟨hextends, hfound⟩ := finish_spec (hstanding t₁)
        exact ⟨habove.trans hextends, hfound⟩
    · exact finish_spec (hstanding t)

theorem makeDirectories_extends : Extends t (t.makeDirectories p).1 :=
  (makeDirectoriesUpTo_spec p.names.length).1

theorem find_of_makeDirectories (h : t.makeDirectories p = (t', .ok ())) :
    t'.find p = .ok .directory := by
  have hfound := (@makeDirectoriesUpTo_spec t p p.names.length).2
  rw [List.take_length] at hfound
  rw [makeDirectories] at h
  rw [h] at hfound
  exact hfound rfl

/-- Nothing is made where a directory stands. -/
theorem makeDirectories_of_find (h : t.find p = .ok .directory) :
    t.makeDirectories p = (t, .ok ()) := by
  obtain ⟨here, hp, hentry⟩ := find_eq_ok_iff.mp h
  have hmake : t.makeDirectory p = .error (.file .alreadyExists) := by
    rw [makeDirectory, hp, ok_bind, hentry]
    rfl
  have hstanding : orStanding t p (t.makeDirectory p) = .ok t := by
    have hdirectory : t.isDirectory p = true := by rw [isDirectory, h]
    rw [hmake, orStanding, if_pos hdirectory]
  rw [makeDirectories]
  cases hnames : p.names with
  | nil =>
    have hpath : (⟨p.root, []⟩ : FilePath) = p := by rw [← hnames]
    rw [List.length_nil, makeDirectoriesUpTo, hpath, hstanding]
    rfl
  | cons name rest =>
    have hpath : (⟨p.root, p.names.take (rest.length + 1)⟩ : FilePath) = p := by
      rw [hnames, List.take_of_length_le (by simp), ← hnames]
    rw [List.length_cons, makeDirectoriesUpTo, hpath]
    split
    · rename_i hmissing
      cases hmake.symm.trans hmissing
    · rw [hstanding]
      rfl

/-! ## Files -/

/-- The bytes of the file at a place, if a file stands there. -/
def bytesAt (t : FileTree) (here : Location) : Option (List UInt8) :=
  match t.entry? here with
  | some (.file bytes) => some bytes
  | _ => none

theorem entry?_of_bytesAt (h : t.bytesAt here = some bytes) :
    t.entry? here = some (.file bytes) := by
  rw [bytesAt] at h
  split at h
  · rename_i hentry
    cases h
    exact hentry
  · cases h

/-- Directories do not matter to files. -/
theorem Extends.bytesAt (h : Extends t t') (here : Location) :
    t'.bytesAt here = t.bytesAt here := by
  rw [FileTree.bytesAt, FileTree.bytesAt]
  rcases h here with h | ⟨hnone, h⟩
  · rw [h]
  · rw [h, hnone]

/-- **A file is written where no directory stands**, and nowhere else is anything changed. -/
theorem write_eq_ok_iff : t.write p bytes = .ok t' ↔ ∃ here, t.locate p = .ok here ∧
    t.entry? here ≠ some .directory ∧ t' = t.put here (.file bytes) := by
  constructor
  · intro h
    obtain ⟨here, hp, h⟩ := of_bind_ok h
    refine ⟨here, hp, ?_⟩
    split at h
    · cases h
    · rename_i hnot
      cases h
      exact ⟨fun hentry => hnot hentry, rfl⟩
  · rintro ⟨here, hp, hnot, rfl⟩
    rw [write, hp, ok_bind]
    split
    · rename_i hentry
      exact absurd hentry hnot
    · rfl

/-- What a file that is written changes. -/
structure Rewritten (t : FileTree) (here : Location) (bytes : List UInt8) (t' : FileTree) :
    Prop where
  free : t.entry? here ≠ some .directory
  written : t'.entry? here = some (.file bytes)
  others : ∀ there, there ≠ here → t'.entry? there = t.entry? there

theorem rewritten_of_write (h : t.write p bytes = .ok t') :
    t.locate p = .ok (destination p) ∧ Rewritten t (destination p) bytes t' := by
  obtain ⟨here, hp, hnot, rfl⟩ := write_eq_ok_iff.mp h
  have hfixed : isFixed here = false := isFixed_eq_false hnot
  obtain rfl := locate_eq hp
  refine ⟨hp, hnot, ?_, fun there hne => ?_⟩
  · rw [entry?_put hfixed, if_pos rfl]
  · rw [entry?_put hfixed, if_neg hne]

namespace Rewritten

variable (h : Rewritten t here bytes t')

include h

theorem grown : Grown t t' where
  directory there hd := by
    have hne : there ≠ here := by
      rintro rfl
      exact h.free hd
    rw [h.others there hne]
    exact hd
  file there bytes' hf := by
    by_cases hne : there = here
    · exact ⟨bytes, hne ▸ h.written⟩
    · exact ⟨bytes', (h.others there hne).trans hf⟩

theorem bytesAt_self : t'.bytesAt here = some bytes := by
  rw [bytesAt, h.written]

theorem bytesAt_of_ne (hne : there ≠ here) : t'.bytesAt there = t.bytesAt there := by
  rw [bytesAt, bytesAt, h.others there hne]

end Rewritten

end FileTree

end ApiMock
