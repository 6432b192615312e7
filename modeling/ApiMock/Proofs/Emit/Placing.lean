import ApiMock.Proofs.Emit.Writing
import ApiMock.Proofs.Files.Growth
/-!
# Emit — what writing leaves behind

Files are written in order. An entry that fails leaves every file as it is
(`EntryOutcome.refused`), with one exception: the file of a text that cannot be
encoded is opened before the text is, and stands empty then. The entries in
front of it are written, and those behind it are not begun
(`writing_in_order`). Once all are written, writing them again changes
nothing.
-/

namespace ApiMock

open Stateful

namespace Filing

variable {α β : Type} {x : Filing α} {k : α → Filing β} {t t' : FileTree} {p : FilePath}

/-- What comes after a value goes on with it, and with the tree by then. -/
theorem on_bind_of_ok {a : α} (hk : ∀ a, (k a).Reports) (h : x.on t = (.ok a, t')) :
    (x >>= k).on t = (k a).on t' := by
  obtain ⟨hvalue, htree⟩ := Prod.mk.inj h
  rcases hrun : x.run.run ⟨t, []⟩ with ⟨r, w⟩
  rw [hrun] at hvalue htree
  obtain rfl : r = .ok a := hvalue
  rw [on, run_bind_of_ok hrun, (hk a).eq_on w]
  exact congrArg (k a).on htree

/-- A step that fails is the end. -/
theorem on_bind_of_error {f : Failure} (h : x.on t = (.error f, t')) :
    (x >>= k).on t = (.error f, t') := by
  obtain ⟨hvalue, htree⟩ := Prod.mk.inj h
  rcases hrun : x.run.run ⟨t, []⟩ with ⟨r, w⟩
  rw [hrun] at hvalue htree
  obtain rfl : r = .error f := hvalue
  rw [on, run_bind_of_error hrun]
  exact congrArg (Prod.mk _) htree

theorem on_makeDirectories :
    (makeDirectories p).on t = ((t.makeDirectories p).2, (t.makeDirectories p).1) := by
  rw [on, makeDirectories, run_get_bind]
  rcases t.makeDirectories p with ⟨after, f | ⟨⟩⟩ <;> rfl

theorem on_writeBytes_of_ok {bytes : List UInt8} (h : t.write p bytes = .ok t') :
    (writeBytes p bytes).on t = (.ok (), t') := by
  rw [on, writeBytes, run_get_bind, run_bind_of_ok (run_lift.trans (by rw [h]))]
  rfl

theorem on_writeBytes_of_error {bytes : List UInt8} {f : Failure} (h : t.write p bytes = .error f) :
    (writeBytes p bytes).on t = (.error f, t) := by
  rw [on, writeBytes, run_get_bind, run_bind_of_error (run_lift.trans (by rw [h]))]

end Filing

namespace Emit

open FileTree

variable {out path : FilePath} {content : Data} {f : String × Data}
  {files rest : List (String × Data)} {t t' : FileTree} {paths : List FilePath} {e : Failure}

/-- Where an entry goes. -/
def pathOf (out : FilePath) (f : String × Data) : FilePath := out.join (.ofText f.1)

/-- The place in the tree that it names. -/
def placeOf (out : FilePath) (f : String × Data) : Location := destination (pathOf out f)

/-! ## One entry -/

/-- **What becomes of one entry**: its outcome, and the tree then. -/
inductive EntryOutcome (path : FilePath) (content : Data) (t : FileTree) :
    Except Failure Unit → FileTree → Prop where
  /-- It is refused once some directories are made. -/
  | refused {e : Failure} {t' : FileTree} (h : Extends t t') :
    EntryOutcome path content t (.error e) t'
  /-- Its text has no bytes, which shows once its file is opened. -/
  | emptied {s : String} {dirs t' : FileTree} (hdirs : Extends t dirs) (hs : content = .str s)
      (hhalf : Text.encode? s = none) (h : Rewritten dirs (destination path) [] t') :
      EntryOutcome path content t (.error .halfCharacter) t'
  | written {s : String} {bytes : List UInt8} {dirs t' : FileTree} (hdirs : Extends t dirs)
      (hparent : dirs.find path.parent = .ok .directory)
      (hplace : dirs.locate path = .ok (destination path)) (hs : content = .str s)
      (hbytes : Text.encode? s = some bytes) (h : Rewritten dirs (destination path) bytes t') :
      EntryOutcome path content t (.ok ()) t'

/-- Once its directories are made, an entry comes to what writing its content comes to. -/
theorem on_writeFile_of_made {dirs : FileTree}
    (h : t.makeDirectories path.parent = (dirs, .ok ())) :
    (writeFile path content).on t = (writeContent path content).on dirs := by
  have hlast : (Filing.ofLogged (report .debug .writer s!"Wrote {path.text}")).Reports := .ofLogged
  rw [writeFile, Filing.on_bind_of_ok (fun _ => writeContent_reports.bind fun _ => hlast)
    (Filing.on_makeDirectories.trans (by rw [h]))]
  rcases hrun : (writeContent path content).on dirs with ⟨e | ⟨⟩, t'⟩
  · exact Filing.on_bind_of_error hrun
  · exact Filing.on_bind_of_ok (fun _ => hlast) hrun

theorem on_writeFile_of_unmade {dirs : FileTree}
    (h : t.makeDirectories path.parent = (dirs, .error e)) :
    (writeFile path content).on t = (.error e, dirs) :=
  Filing.on_bind_of_error (Filing.on_makeDirectories.trans (by rw [h]))

section

variable {s : String} {bytes : List UInt8}

theorem writeContent_of_encode (h : Text.encode? s = some bytes) :
    writeContent path (.str s) = Filing.writeBytes path bytes := by
  simp only [writeContent, Data.str, h]

/-- A text that has no bytes is only looked at once its file is opened. -/
theorem writeContent_of_half (h : Text.encode? s = none) :
    writeContent path (.str s) =
      Filing.writeBytes path [] >>= fun _ => throw .halfCharacter := by
  simp only [writeContent, Data.str, h]

theorem on_writeContent_of_half (h : Text.encode? s = none) (hwrite : t.write path [] = .ok t') :
    (writeContent path (.str s)).on t = (.error .halfCharacter, t') := by
  rw [writeContent_of_half h,
    Filing.on_bind_of_ok (fun _ => .throw) (Filing.on_writeBytes_of_ok hwrite)]
  rfl

end

theorem on_writeContent_of_not_text (h : ∀ s, content ≠ .str s) :
    (writeContent path content).on t = (.error .contentNotText, t) := by
  unfold writeContent
  split
  · exact absurd rfl (h _)
  · rfl

/-- **One entry** is written, or refused, or leaves an empty file. -/
theorem writeFile_outcome (path : FilePath) (content : Data) (t : FileTree) :
    EntryOutcome path content t ((writeFile path content).on t).1
      ((writeFile path content).on t).2 := by
  have hextends := @makeDirectories_extends t path.parent
  rcases hmade : t.makeDirectories path.parent with ⟨dirs, f | ⟨⟩⟩
  · rw [hmade] at hextends
    rw [on_writeFile_of_unmade hmade]
    exact .refused hextends
  · rw [hmade] at hextends
    rw [on_writeFile_of_made hmade]
    by_cases htext : ∃ s, content = .str s
    · obtain ⟨s, rfl⟩ := htext
      cases hs : Text.encode? s with
      | some bytes =>
        rw [writeContent_of_encode hs]
        cases hwrite : dirs.write path bytes with
        | error f =>
          rw [Filing.on_writeBytes_of_error hwrite]
          exact .refused hextends
        | ok t' =>
          rw [Filing.on_writeBytes_of_ok hwrite]
          obtain ⟨hplace, hrewritten⟩ := rewritten_of_write hwrite
          exact .written hextends (find_of_makeDirectories hmade) hplace rfl hs hrewritten
      | none =>
        cases hwrite : dirs.write path [] with
        | error f =>
          rw [writeContent_of_half hs,
            Filing.on_bind_of_error (Filing.on_writeBytes_of_error hwrite)]
          exact .refused hextends
        | ok t' =>
          rw [on_writeContent_of_half hs hwrite]
          exact .emptied hextends rfl hs (rewritten_of_write hwrite).2
    · rw [on_writeContent_of_not_text fun s hs => htext ⟨s, hs⟩]
      exact .refused hextends

/-! ## Entries in order -/

/-- An entry that succeeds is the first of what is written. -/
theorem on_write_cons_of_ok (h : (writeFile (pathOf out f) f.2).on t = (.ok (), t')) :
    (write out (f :: rest)).on t =
      (List.cons (pathOf out f) <$> ((write out rest).on t').1, ((write out rest).on t').2) := by
  have hentry : (do writeFile (pathOf out f) f.2; return pathOf out f : Filing FilePath).on t =
      (.ok (pathOf out f), t') :=
    Filing.on_bind_of_ok (fun _ => .pure) h
  have hrest : ∀ path, (write out rest >>= fun paths =>
      (Pure.pure (path :: paths) : Filing (List FilePath))).Reports :=
    fun _ => write_reports.bind fun _ => .pure
  have hsteps : write out (f :: rest) =
      (do writeFile (pathOf out f) f.2; return pathOf out f : Filing FilePath) >>= fun path =>
        write out rest >>= fun paths => Pure.pure (path :: paths) := by
    rw [write, List.mapM_cons]
    rfl
  rw [hsteps, Filing.on_bind_of_ok hrest hentry]
  rcases hrun : (write out rest).on t' with ⟨e | paths, after⟩
  · exact Filing.on_bind_of_error hrun
  · exact Filing.on_bind_of_ok (fun _ => .pure) hrun

/-- One that fails is the end. -/
theorem on_write_cons_of_error (h : (writeFile (pathOf out f) f.2).on t = (.error e, t')) :
    (write out (f :: rest)).on t = (.error e, t') := by
  rw [write, List.mapM_cons]
  exact Filing.on_bind_of_error (Filing.on_bind_of_error h)

/-- **The first step of a run**: its entry fails and the run with it, or is written and the rest
goes on from there. -/
theorem of_write_cons {r : Except Failure (List FilePath)}
    (h : (write out (f :: rest)).on t = (r, t')) :
    (∃ e, r = .error e ∧ (writeFile (pathOf out f) f.2).on t = (.error e, t')) ∨
      ∃ t₁ r', (writeFile (pathOf out f) f.2).on t = (.ok (), t₁) ∧
        (write out rest).on t₁ = (r', t') ∧ r = List.cons (pathOf out f) <$> r' := by
  rcases hrun : (writeFile (pathOf out f) f.2).on t with ⟨e | ⟨⟩, t₁⟩
  · obtain ⟨rfl, rfl⟩ := Prod.mk.inj ((on_write_cons_of_error hrun).symm.trans h)
    exact .inl ⟨e, rfl, rfl⟩
  · obtain ⟨hresult, hafter⟩ := Prod.mk.inj ((on_write_cons_of_ok hrun).symm.trans h)
    exact .inr ⟨t₁, _, rfl, Prod.ext rfl hafter, hresult.symm⟩

/-- The file of the entry stands where it goes, and the entry can be written there. -/
structure Ready (out : FilePath) (f : String × Data) (t : FileTree) : Prop where
  parent : t.find (pathOf out f).parent = .ok .directory
  place : t.locate (pathOf out f) = .ok (placeOf out f)
  standing : ∃ bytes, t.entry? (placeOf out f) = some (.file bytes)
  content : ∃ s bytes, f.2 = .str s ∧ Text.encode? s = some bytes

/-- Every place that is named holds the content of the last entry that names
it, and every other file is as it was. -/
structure Delivered (out : FilePath) (files : List (String × Data)) (t t' : FileTree) : Prop where
  last : ∀ before f after, files = before ++ f :: after →
    (∀ g ∈ after, placeOf out g ≠ placeOf out f) →
      ∃ s bytes, f.2 = .str s ∧ Text.encode? s = some bytes ∧
        t'.bytesAt (placeOf out f) = some bytes
  others : ∀ here, (∀ f ∈ files, placeOf out f ≠ here) → t'.bytesAt here = t.bytesAt here

theorem Ready.mono (h : Ready out f t) (hgrown : Grown t t') : Ready out f t' where
  parent := hgrown.find_directory h.parent
  place := hgrown.locate h.place
  standing := by
    obtain ⟨bytes, hfile⟩ := h.standing
    exact hgrown.file _ bytes hfile
  content := h.content

/-- **An entry whose file stands is written again**, and no other place is touched. -/
theorem Ready.on_writeFile (h : Ready out f t) : ∃ bytes t',
    (writeFile (pathOf out f) f.2).on t = (.ok (), t') ∧ Rewritten t (placeOf out f) bytes t' := by
  obtain ⟨s, bytes, hs, hbytes⟩ := h.content
  obtain ⟨old, hfile⟩ := h.standing
  have hnot : t.entry? (placeOf out f) ≠ some .directory := by
    rw [hfile]
    exact nofun
  have hwrite : t.write (pathOf out f) bytes = .ok (t.put (placeOf out f) (.file bytes)) :=
    write_eq_ok_iff.mpr ⟨_, h.place, hnot, rfl⟩
  refine ⟨bytes, t.put (placeOf out f) (.file bytes), ?_, (rewritten_of_write hwrite).2⟩
  rw [on_writeFile_of_made (makeDirectories_of_find h.parent), hs, writeContent_of_encode hbytes,
    Filing.on_writeBytes_of_ok hwrite]

/-- **What an entry that is written leaves behind.** -/
theorem of_writeFile_ok (h : (writeFile (pathOf out f) f.2).on t = (.ok (), t')) :
    Grown t t' ∧ Ready out f t' ∧
      (∃ s bytes, f.2 = .str s ∧ Text.encode? s = some bytes ∧
        t'.bytesAt (placeOf out f) = some bytes) ∧
      ∀ here, here ≠ placeOf out f → t'.bytesAt here = t.bytesAt here := by
  have hentry := writeFile_outcome (pathOf out f) f.2 t
  rw [h] at hentry
  cases hentry with
  | @written s bytes dirs _ hdirs hparent hplace hs hbytes hwritten =>
    refine ⟨hdirs.grown.trans hwritten.grown, ?_, ⟨s, bytes, hs, hbytes, hwritten.bytesAt_self⟩,
      fun here hne => (hwritten.bytesAt_of_ne hne).trans (hdirs.bytesAt here)⟩
    exact ⟨hwritten.grown.find_directory hparent, hwritten.grown.locate hplace,
      ⟨bytes, hwritten.written⟩, ⟨s, bytes, hs, hbytes⟩⟩

/-- What is delivered behind an entry that is written is delivered with it. -/
theorem Delivered.cons {t₁ : FileTree} (hrest : Delivered out rest t₁ t')
    (hfirst : ∃ s bytes, f.2 = .str s ∧ Text.encode? s = some bytes ∧
      t₁.bytesAt (placeOf out f) = some bytes)
    (hsame : ∀ here, here ≠ placeOf out f → t₁.bytesAt here = t.bytesAt here) :
    Delivered out (f :: rest) t t' where
  last before g after hsplit hafter := by
    cases before with
    | nil =>
      -- the entry itself is the last one for its place
      cases hsplit
      rw [hrest.others _ hafter]
      exact hfirst
    | cons first before =>
      cases hsplit
      exact hrest.last before g after rfl hafter
  others here hnot := by
    obtain ⟨hne, hrestnot⟩ := List.forall_mem_cons.mp hnot
    rw [hrest.others here hrestnot]
    exact hsame here hne.symm

/-- **What a run that succeeds leaves behind.** -/
theorem of_write_ok (h : (write out files).on t = (.ok paths, t')) :
    paths = files.map (pathOf out) ∧ Grown t t' ∧ (∀ f ∈ files, Ready out f t') ∧
      Delivered out files t t' := by
  induction files generalizing t paths with
  | nil =>
    cases h
    exact ⟨rfl, .refl, List.forall_mem_nil _, ⟨fun before f after hnil => by simp at hnil,
      fun here _ => rfl⟩⟩
  | cons f rest ih =>
    rcases of_write_cons h with ⟨e, herror, -⟩ | ⟨t₁, r, hentry, hrest, hpaths⟩
    · cases herror
    · cases r with
      | error e => cases hpaths
      | ok others =>
        obtain rfl := Except.ok.inj hpaths
        obtain ⟨rfl, hgrown, hready, hdelivered⟩ := ih hrest
        obtain ⟨hgrown₁, hfirst, hcontent, hsame⟩ := of_writeFile_ok hentry
        exact ⟨rfl, hgrown₁.trans hgrown, List.forall_mem_cons.mpr ⟨hfirst.mono hgrown, hready⟩,
          hdelivered.cons hcontent hsame⟩

/-- **A run over files that stand** succeeds, and touches no other place. -/
theorem write_of_ready (h : ∀ f ∈ files, Ready out f t) : ∃ t',
    (write out files).on t = (.ok (files.map (pathOf out)), t') ∧
      ∀ here, (∀ f ∈ files, placeOf out f ≠ here) → t'.entry? here = t.entry? here := by
  induction files generalizing t with
  | nil => exact ⟨t, rfl, fun here _ => rfl⟩
  | cons f rest ih =>
    obtain ⟨hf, hrest⟩ := List.forall_mem_cons.mp h
    obtain ⟨bytes, t₁, hrun, hwritten⟩ := hf.on_writeFile
    obtain ⟨t', hruns, hsame⟩ := ih fun g hg => (hrest g hg).mono hwritten.grown
    refine ⟨t', ?_, fun here hnot => ?_⟩
    · rw [on_write_cons_of_ok hrun, hruns]
      rfl
    · obtain ⟨hne, hrestnot⟩ := List.forall_mem_cons.mp hnot
      rw [hsame here hrestnot, hwritten.others here hne.symm]

/-- The last entry for a place that is named. -/
theorem exists_last {here : Location} (h : ∃ f ∈ files, placeOf out f = here) :
    ∃ before f after, files = before ++ f :: after ∧ placeOf out f = here ∧
      ∀ g ∈ after, placeOf out g ≠ here := by
  induction files with
  | nil =>
    obtain ⟨f, hf, -⟩ := h
    cases hf
  | cons f rest ih =>
    by_cases hrest : ∃ g ∈ rest, placeOf out g = here
    · obtain ⟨before, g, after, rfl, hg, hafter⟩ := ih hrest
      exact ⟨f :: before, g, after, rfl, hg, hafter⟩
    · obtain ⟨g, hg, hplace⟩ := h
      rcases List.mem_cons.mp hg with rfl | hg
      · exact ⟨[], g, rest, rfl, hplace, fun k hk heq => hrest ⟨k, hk, heq⟩⟩
      · exact absurd ⟨g, hg, hplace⟩ hrest

/-- **Writing again changes nothing.** -/
theorem write_again (h : (write out files).on t = (.ok paths, t')) : ∃ t'',
    (write out files).on t' = (.ok paths, t'') ∧ ∀ here, t''.entry? here = t'.entry? here := by
  obtain ⟨rfl, -, hready, hdelivered⟩ := of_write_ok h
  obtain ⟨t'', hrun, hsame⟩ := write_of_ready hready
  obtain ⟨-, -, hready', hdelivered'⟩ := of_write_ok hrun
  refine ⟨t'', hrun, fun here => ?_⟩
  by_cases hnamed : ∃ f ∈ files, placeOf out f = here
  · obtain ⟨before, f, after, hsplit, rfl, hafter⟩ := exists_last hnamed
    have hf : f ∈ files := hsplit ▸ List.mem_append_cons_self
    obtain ⟨s, bytes, hs, hbytes, hat⟩ := hdelivered.last before f after hsplit hafter
    obtain ⟨s', bytes', hs', hbytes', hat'⟩ := hdelivered'.last before f after hsplit hafter
    cases hs.symm.trans hs'
    cases hbytes.symm.trans hbytes'
    rw [entry?_of_bytesAt hat, entry?_of_bytesAt hat']
  · exact hsame here fun f hf heq => hnamed ⟨f, hf, heq⟩

/-- **Where a run fails**: the entries in front are written, and one fails on what they left. -/
theorem of_write_error (h : (write out files).on t = (.error e, t')) :
    ∃ before f after t₁, files = before ++ f :: after ∧
      (write out before).on t = (.ok (before.map (pathOf out)), t₁) ∧
      (writeFile (pathOf out f) f.2).on t₁ = (.error e, t') := by
  induction files generalizing t with
  | nil => cases h
  | cons f rest ih =>
    rcases of_write_cons h with ⟨e', herror, hfails⟩ | ⟨t₁, r, hentry, hrest, herror⟩
    · obtain rfl := Except.error.inj herror
      exact ⟨[], f, rest, t, rfl, rfl, hfails⟩
    · cases r with
      | ok others => cases herror
      | error e' =>
        obtain rfl := Except.error.inj herror
        obtain ⟨before, g, after, t₂, rfl, hbefore, hfails⟩ := ih hrest
        refine ⟨f :: before, g, after, t₂, rfl, ?_, hfails⟩
        rw [on_write_cons_of_ok hentry, hbefore]
        rfl

/-! ## All of them -/

/-- **Files are written in order.** If a run succeeds it tells the paths of
its entries, every place that is named holds the content of the last entry
that names it, every other file is as it was, and running it again succeeds
alike and leaves everything as it is. If it fails, it is an entry that fails
on the tree that the entries in front of it leave. These are written as in a
run of their own, and no file is changed after that, unless the text of the
entry has half a character in it and is refused for that: then its file is
empty. -/
theorem writing_in_order (out : FilePath) (files : List (String × Data)) (t : FileTree) :
    match (write out files).on t with
    | (.ok paths, t') => paths = files.map (pathOf out) ∧ Delivered out files t t' ∧
      ∃ t'', (write out files).on t' = (.ok paths, t'') ∧
        ∀ here, t''.entry? here = t'.entry? here
    | (.error e, t') => ∃ before f after t₁, files = before ++ f :: after ∧
      (write out before).on t = (.ok (before.map (pathOf out)), t₁) ∧
      (writeFile (pathOf out f) f.2).on t₁ = (.error e, t') ∧ Delivered out before t t₁ ∧
      ((∀ here, t'.bytesAt here = t₁.bytesAt here) ∨
        e = .halfCharacter ∧ (∃ s, f.2 = .str s ∧ Text.encode? s = none) ∧
          t'.bytesAt (placeOf out f) = some [] ∧
          ∀ here, here ≠ placeOf out f → t'.bytesAt here = t₁.bytesAt here) := by
  rcases hrun : (write out files).on t with ⟨e | paths, t'⟩
  · obtain ⟨before, f, after, t₁, hsplit, hbefore, hfails⟩ := of_write_error hrun
    have hentry := writeFile_outcome (pathOf out f) f.2 t₁
    rw [hfails] at hentry
    refine ⟨before, f, after, t₁, hsplit, hbefore, hfails, (of_write_ok hbefore).2.2.2, ?_⟩
    cases hentry with
    | refused h => exact .inl h.bytesAt
    | emptied hdirs hs hhalf h =>
      exact .inr ⟨rfl, ⟨_, hs, hhalf⟩, h.bytesAt_self,
        fun here hne => (h.bytesAt_of_ne hne).trans (hdirs.bytesAt here)⟩
  · obtain ⟨hpaths, -, -, hdelivered⟩ := of_write_ok hrun
    exact ⟨hpaths, hdelivered, write_again hrun⟩

/-- A tree with one file, of these bytes. -/
def standing (bytes : List UInt8) : FileTree :=
  ⟨[(["out"], .directory), (["out", "a.ts"], .file bytes)]⟩

/-- **The file of an entry that fails can be lost**: a text with half a character in it. -/
theorem half_loses_file : ¬ ∀ (out : FilePath) (files : List (String × Data)) (t t' : FileTree)
    (e : Failure), (write out files).on t = (.error e, t') →
      ∃ before f after t₁, files = before ++ f :: after ∧
        (write out before).on t = (.ok (before.map (pathOf out)), t₁) ∧
        ∀ here, t'.bytesAt here = t₁.bytesAt here := by
  intro hall
  obtain ⟨half, hhalf⟩ : ∃ s, Text.encode? s = none :=
    ⟨String.ofList (Text.ofPoint 0xd800), by decide +kernel⟩
  have hmade : (standing [111, 108, 100]).makeDirectories ⟨"", ["out"]⟩ =
      (standing [111, 108, 100], .ok ()) := rfl
  have hplace : (standing [111, 108, 100]).locate ⟨"", ["out", "a.ts"]⟩ = .ok ["out", "a.ts"] := rfl
  have hwrite : (standing [111, 108, 100]).write ⟨"", ["out", "a.ts"]⟩ [] = .ok (standing []) :=
    write_eq_ok_iff.mpr ⟨_, hplace, by decide, rfl⟩
  have hjoin : (⟨"", ["out"]⟩ : FilePath).join (.ofText "a.ts") = ⟨"", ["out", "a.ts"]⟩ := by
    decide +kernel
  have hpath : pathOf ⟨"", ["out"]⟩ ("a.ts", .str half) = ⟨"", ["out", "a.ts"]⟩ := hjoin
  have hentry : (writeFile (pathOf ⟨"", ["out"]⟩ ("a.ts", .str half)) (.str half)).on
      (standing [111, 108, 100]) = (.error .halfCharacter, standing []) := by
    rw [hpath, on_writeFile_of_made hmade, on_writeContent_of_half hhalf hwrite]
  have hrun := @on_write_cons_of_error _ ("a.ts", .str half) [] _ _ _ hentry
  obtain ⟨before, f, after, t₁, hsplit, hbefore, hsame⟩ := hall _ _ _ _ _ hrun
  cases before with
  | nil =>
    cases hbefore
    exact absurd (hsame ["out", "a.ts"]) (by decide)
  | cons g before => simp at hsplit

end Emit

end ApiMock
