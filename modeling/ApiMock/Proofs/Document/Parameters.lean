import ApiMock.Proofs.Document.Parts
import ApiMock.Proofs.Entries
/-!
# Document — parameters that are merged

The parameters of a path and those of an operation on it are merged by name and place, one list
behind the other: each name and place is left once, where it is listed first, with what is listed
last (`Overridden`). `ListedAs` says what is listed, which is what the entries stand for that lead
to a parameter with a name. A name or a place can be written as a text or as the bytes of one, and
these are different keys; so what is left is told apart by name and place unless bytes are used.

Merging is done under keys that are any values of a document. Once all of them can be read they are
texts and bytes, for which being the same key is being equal, so what is merged is a mapping under
such keys.
-/

namespace ApiMock

open Entries Sequence

variable {path method : String} {operation document shared own entry d : Data}
  {entries : List Data} {merged : List (ParameterKey × RawParameter)} {p : RawParameter}
  {q : Parameter} {o : Operation}

/-! ## Names and places -/

/-- The name or the place of a parameter is written in bytes. -/
def RawParameter.InBytes (p : RawParameter) : Prop :=
  ∃ b, p.name = .scalar (.bytes b) ∨ p.location = .scalar (.bytes b)

/-- A field is read from a text or from bytes. -/
theorem Data.of_fieldText {s : String} (h : d.fieldText = .ok s) :
    d = .str s ∨ ∃ b, d = .scalar (.bytes b) := by
  rw [Data.fieldText.eq_def] at h
  split at h
  · cases h
    exact .inl rfl
  · exact .inr ⟨_, rfl⟩
  · cases h

/-- How a name or a place is written if it can be read. -/
inductive TextOrBytes where
  | text (s : String)
  | bytes (b : List UInt8)
  deriving DecidableEq

namespace TextOrBytes

variable {v w : TextOrBytes}

/-- The value that stands for it in a document. -/
def data : TextOrBytes → Data
  | text s => .str s
  | bytes b => .scalar (.bytes b)

theorem exists_of_fieldText {s : String} (h : d.fieldText = .ok s) :
    ∃ w : TextOrBytes, w.data = d := by
  rcases Data.of_fieldText h with rfl | ⟨b, rfl⟩
  · exact ⟨.text s, rfl⟩
  · exact ⟨.bytes b, rfl⟩

theorem data_inj : v.data = w.data ↔ v = w := by
  cases v <;> cases w <;> simp [data, Data.str]

/-- Only the value itself is the same key. -/
theorem data_sameKey_iff : w.data.sameKey d = true ↔ d = w.data := by
  cases d with
  | scalar t =>
    cases w <;> cases t <;>
      simp [data, Data.str, Data.sameKey, BEq.beq, Scalar.same, Scalar.int?, eq_comm]
  | _ => cases w <;> simp [data, Data.str, Data.sameKey]

/-- The same from the other side. -/
theorem sameKey_data_iff : d.sameKey w.data = true ↔ d = w.data := by
  cases d with
  | scalar t =>
    cases w <;> cases t <;>
      simp [data, Data.str, Data.sameKey, BEq.beq, Scalar.same, Scalar.int?]
  | _ => cases w <;> simp [data, Data.str, Data.sameKey]

end TextOrBytes

/-- What a parameter goes by: its name and its place as they are written. -/
structure WrittenKey where
  name : TextOrBytes
  location : TextOrBytes
  deriving DecidableEq

namespace WrittenKey

/-- The key under which parameters of this name and place are merged. -/
def key (k : WrittenKey) : ParameterKey := ⟨k.name.data, k.location.data⟩

/-- A parameter of this name and place with these fields. -/
def holding (k : WrittenKey) (es : List (Scalar × Data)) : RawParameter :=
  ⟨k.name.data, k.location.data, es⟩

/-- The texts that the name and the place are read as. -/
def texts (k : WrittenKey) : Option String × Option String :=
  (k.name.data.fieldText?, k.location.data.fieldText?)

variable {j k : WrittenKey} {other : ParameterKey}

theorem key_inj : j.key = k.key ↔ j = k := by
  rw [key, key, ParameterKey.mk.injEq, TextOrBytes.data_inj, TextOrBytes.data_inj,
    WrittenKey.mk.injEq]

/-- Only the key itself is the same. -/
theorem key_beq_iff : (k.key == other) = true ↔ other = k.key := by
  have hparts : (k.key == other) =
      (k.name.data.sameKey other.name && k.location.data.sameKey other.location) := rfl
  rw [hparts, Bool.and_eq_true, TextOrBytes.data_sameKey_iff, TextOrBytes.data_sameKey_iff]
  exact ParameterKey.mk.injEq .. ▸ Iff.rfl

/-- The same from the other side. -/
theorem beq_key_iff : (other == k.key) = true ↔ other = k.key := by
  have hparts : (other == k.key) =
      (other.name.sameKey k.name.data && other.location.sameKey k.location.data) := rfl
  rw [hparts, Bool.and_eq_true, TextOrBytes.sameKey_data_iff, TextOrBytes.sameKey_data_iff]
  exact ParameterKey.mk.injEq .. ▸ Iff.rfl

/-- Keys are the same for the same name and place only. -/
theorem key_beq (j k : WrittenKey) : (j.key == k.key) = (j == k) := by
  rw [Bool.eq_iff_iff, beq_key_iff, key_inj, beq_iff_eq]

end WrittenKey

/-- The name and the place that are read of a parameter. -/
theorem RawParameter.fieldText_of_parse (h : p.parse = .ok q) :
    p.name.fieldText = .ok q.name ∧ p.location.fieldText = .ok q.location := by
  obtain ⟨schema, -, h⟩ := of_bind_ok h
  obtain ⟨_, hfaults, h⟩ := of_bind_ok h
  cases h
  have hnone : p.name.textFaults "name" = [] ∧ p.location.textFaults "location" = [] := by
    rw [Data.refuseFaults] at hfaults
    split at hfaults
    · rename_i hempty
      rw [List.isEmpty_iff, List.append_eq_nil_iff, List.append_eq_nil_iff] at hempty
      exact hempty.1
    · cases hfaults
  have hread : ∀ (place : String) (d : Data), d.textFaults place = [] →
      d.fieldText = .ok (d.fieldText?.getD "") := by
    intro place d hd
    rw [Data.textFaults] at hd
    rw [Data.fieldText?]
    cases hfield : d.fieldText with
    | ok s => rfl
    | error reason =>
      rw [hfield] at hd
      cases hd
  exact ⟨hread _ _ hnone.1, hread _ _ hnone.2⟩

/-- So its key can be read. -/
theorem RawParameter.exists_writtenKey (h : p.parse = .ok q) : ∃ k : WrittenKey, k.key = p.key := by
  obtain ⟨hname, hplace⟩ := RawParameter.fieldText_of_parse h
  obtain ⟨name, hname⟩ := TextOrBytes.exists_of_fieldText hname
  obtain ⟨place, hplace⟩ := TextOrBytes.exists_of_fieldText hplace
  exact ⟨⟨name, place⟩, by rw [WrittenKey.key, hname, hplace]; rfl⟩

/-! ## What is listed -/

/-- The parameters that entries of a list stand for, by name and place. An entry that leads
nowhere or has no name stands for none; one that says no place stands in the query. -/
inductive ListedAs (document : Data) : List Data → List (WrittenKey × RawParameter) → Prop where
  | nil : ListedAs document [] []
  | skip {entry found : Data} {entries : List Data} {listed : List (WrittenKey × RawParameter)}
      (hfound : Pointer.deref document entry = .ok found)
      (hname : ∀ es, found = .map es → Data.lookup "name" es = none)
      (hrest : ListedAs document entries listed) : ListedAs document (entry :: entries) listed
  | take {entry : Data} {es : List (Scalar × Data)} {k : WrittenKey} {entries : List Data}
      {listed : List (WrittenKey × RawParameter)}
      (hfound : Pointer.deref document entry = .ok (.map es))
      (hname : Data.lookup "name" es = some k.name.data)
      (hplace : (Data.lookup "in" es).getD (.str "query") = k.location.data)
      (hrest : ListedAs document entries listed) :
      ListedAs document (entry :: entries) ((k, k.holding es) :: listed)

variable {listed before after : List (WrittenKey × RawParameter)} {k : WrittenKey}

/-- When an entry stands for no parameter. -/
theorem rawParameter_eq_none_iff : rawParameter document entry = .ok none ↔
    ∃ found, Pointer.deref document entry = .ok found ∧
      ∀ es, found = .map es → Data.lookup "name" es = none := by
  constructor
  · intro h
    obtain ⟨found, hfound, h⟩ := of_bind_ok h
    refine ⟨found, hfound, ?_⟩
    rintro es rfl
    simp only at h
    split at h
    · assumption
    · cases h
  · rintro ⟨found, hfound, hname⟩
    rw [rawParameter, hfound, ok_bind]
    split
    · rw [hname _ rfl]
      rfl
    · rfl

/-- And which one it stands for if it does. -/
theorem rawParameter_eq_some_iff : rawParameter document entry = .ok (some p) ↔
    Pointer.deref document entry = .ok (.map p.fields) ∧ Data.lookup "name" p.fields = some p.name ∧
      (Data.lookup "in" p.fields).getD (.str "query") = p.location := by
  constructor
  · intro h
    obtain ⟨found, hfound, h⟩ := of_bind_ok h
    split at h
    · split at h
      · cases h
      · rename_i hname
        cases h
        exact ⟨hfound, hname, rfl⟩
    · cases h
  · rintro ⟨hfound, hname, hplace⟩
    rw [rawParameter, hfound, ok_bind]
    simp only [hname, hplace]
    rfl

/-- What is listed goes by its name and place, and an entry stands for it. -/
theorem ListedAs.origin (h : ListedAs document entries listed) {e : WrittenKey × RawParameter}
    (he : e ∈ listed) : e.2.key = e.1.key ∧
      ∃ entry ∈ entries, rawParameter document entry = .ok (some e.2) := by
  induction h with
  | nil => cases he
  | skip _ _ _ ih =>
    obtain ⟨hkey, entry, hentry, hraw⟩ := ih he
    exact ⟨hkey, entry, List.mem_cons_of_mem _ hentry, hraw⟩
  | take hfound hname hplace _ ih =>
    rcases List.mem_cons.mp he with rfl | he
    · exact ⟨rfl, _, List.mem_cons_self, rawParameter_eq_some_iff.mpr ⟨hfound, hname, hplace⟩⟩
    · obtain ⟨hkey, entry, hentry, hraw⟩ := ih he
      exact ⟨hkey, entry, List.mem_cons_of_mem _ hentry, hraw⟩

/-- It goes by texts, or has its name or place in bytes. -/
theorem ListedAs.texts_or_inBytes (h : ListedAs document entries listed)
    {e : WrittenKey × RawParameter} (he : e ∈ listed) :
    (∃ name location, e.1 = ⟨.text name, .text location⟩) ∨ e.2.InBytes := by
  obtain ⟨hname, hplace⟩ := ParameterKey.mk.inj (h.origin he).1
  obtain ⟨⟨name, location⟩, p⟩ := e
  cases name with
  | bytes b => exact .inr ⟨b, .inl hname⟩
  | text name =>
    cases location with
    | bytes b => exact .inr ⟨b, .inr hplace⟩
    | text location => exact .inl ⟨name, location, rfl⟩

/-- Two lists one after the other. -/
theorem ListedAs.append {later : List Data} (h : ListedAs document entries before)
    (h' : ListedAs document later after) :
    ListedAs document (entries ++ later) (before ++ after) := by
  induction h with
  | nil => exact h'
  | skip hfound hname _ ih => exact .skip hfound hname ih
  | take hfound hname hplace _ ih => exact .take hfound hname hplace ih

/-- A list of entries that is taken apart. -/
theorem ListedAs.exists_append {later : List Data}
    (h : ListedAs document (entries ++ later) listed) :
    ∃ before after, listed = before ++ after ∧ ListedAs document entries before ∧
      ListedAs document later after := by
  induction entries generalizing listed with
  | nil => exact ⟨[], listed, rfl, .nil, h⟩
  | cons entry rest ih =>
    cases h with
    | skip hfound hname hrest =>
      obtain ⟨before, after, rfl, hbefore, hafter⟩ := ih hrest
      exact ⟨before, after, rfl, .skip hfound hname hbefore, hafter⟩
    | take hfound hname hplace hrest =>
      obtain ⟨before, after, rfl, hbefore, hafter⟩ := ih hrest
      exact ⟨_ :: before, after, rfl, .take hfound hname hplace hbefore, hafter⟩

/-- Entries of which every parameter has a name and a place that can be read, as a list. -/
theorem exists_listedAs (h : ∀ entry ∈ entries, ∃ found, rawParameter document entry = .ok found ∧
    ∀ p, found = some p → ∃ k : WrittenKey, k.key = p.key) :
    ∃ listed, ListedAs document entries listed := by
  induction entries with
  | nil => exact ⟨[], .nil⟩
  | cons entry rest ih =>
    obtain ⟨listed, hlisted⟩ := ih fun e he => h e (List.mem_cons_of_mem entry he)
    obtain ⟨found, hfound, hkeyed⟩ := h entry List.mem_cons_self
    cases found with
    | none =>
      obtain ⟨found, hderef, hname⟩ := rawParameter_eq_none_iff.mp hfound
      exact ⟨listed, .skip hderef hname hlisted⟩
    | some p =>
      obtain ⟨hderef, hname, hplace⟩ := rawParameter_eq_some_iff.mp hfound
      obtain ⟨k, hk⟩ := hkeyed p rfl
      obtain ⟨hkname, hkplace⟩ := ParameterKey.mk.inj hk
      exact ⟨_, .take hderef (hkname ▸ hname) (hkplace ▸ hplace) hlisted⟩

/-! ## What is merged -/

/-- Listed parameters under the keys under which they are merged. -/
def underKeys (listed : List (WrittenKey × RawParameter)) : List (ParameterKey × RawParameter) :=
  listed.map (Prod.map WrittenKey.key id)

/-- **Merging writes the listed parameters**, one after the other. -/
theorem ListedAs.eq_underKeys (h : ListedAs document entries listed)
    (hmerged : entries.foldlM (mergeParameter document) (underKeys before) = .ok merged) :
    merged = underKeys (merge before listed) := by
  induction h generalizing before with
  | nil =>
    cases hmerged
    rfl
  | @skip entry found rest listed hfound hname _ ih =>
    have hnone : rawParameter document entry = .ok none :=
      rawParameter_eq_none_iff.mpr ⟨found, hfound, hname⟩
    rw [List.foldlM_cons, mergeParameter, hnone] at hmerged
    exact ih hmerged
  | @take entry es k rest listed hfound hname hplace _ ih =>
    have hsome : rawParameter document entry = .ok (some (k.holding es)) :=
      rawParameter_eq_some_iff.mpr ⟨hfound, hname, hplace⟩
    have hhashable : ∀ w : TextOrBytes, w.data.isHashable = true := by
      intro w
      cases w <;> rfl
    have hstep : mergeParameter document (underKeys before) entry =
        .ok (underKeys (put k (k.holding es) before)) := by
      rw [mergeParameter, hsome, ok_bind]
      simp only [WrittenKey.holding, hhashable, Bool.and_self, if_true]
      exact congrArg Except.ok (put_mapKeys WrittenKey.key_beq)
    rw [List.foldlM_cons, hstep, ok_bind] at hmerged
    exact ih hmerged

/-- Parameters that are merged of some entries: each stands under its own key or one that is the
same, and an entry stands for it. -/
structure Merged (document : Data) (entries : List Data)
    (merged : List (ParameterKey × RawParameter)) : Prop where
  keyed : ∀ e ∈ merged, e.1 = e.2.key ∨ (e.1 == e.2.key) = true
  origin : ∀ e ∈ merged, ∃ entry ∈ entries, rawParameter document entry = .ok (some e.2)

/-- An entry that is added keeps that. -/
theorem Merged.step {before after : List (ParameterKey × RawParameter)}
    (h : Merged document entries before) (hentry : entry ∈ entries)
    (hstep : mergeParameter document before entry = .ok after) :
    Merged document entries after := by
  obtain ⟨found, hfound, hstep⟩ := of_bind_ok hstep
  cases found with
  | none =>
    cases hstep
    exact h
  | some p =>
    simp only at hstep
    split at hstep
    · cases hstep
      refine ⟨fun e he => ?_, fun e he => ?_⟩
      · rcases keyed_of_mem_put he with ⟨hvalue, hkey⟩ | he
        · rw [hvalue]
          exact hkey
        · exact h.keyed e he
      · rcases keyed_of_mem_put he with ⟨hvalue, -⟩ | he
        · rw [hvalue]
          exact ⟨entry, hentry, hfound⟩
        · exact h.origin e he
    · cases hstep

/-- **All entries, one after the other.** -/
theorem merged_of_foldlM (h : entries.foldlM (mergeParameter document) [] = .ok merged) :
    Merged document entries merged := by
  have hnone : Merged document entries [] := ⟨by simp, by simp⟩
  exact of_foldlM_ok hnone (fun _ hentry _ _ hsound hstep => hsound.step hentry hstep) h

/-- No key is lost while entries are merged. -/
theorem mem_keys_of_mergeParameter {before after : List (ParameterKey × RawParameter)}
    {key : ParameterKey} (h : key ∈ keys before)
    (hstep : mergeParameter document before entry = .ok after) : key ∈ keys after := by
  obtain ⟨found, -, hstep⟩ := of_bind_ok hstep
  cases found with
  | none =>
    cases hstep
    exact h
  | some p =>
    simp only at hstep
    split at hstep
    · cases hstep
      exact mem_keys_put h
    · cases hstep

/-- **Every entry is looked at**, and the parameter that it stands for has its key, or one that is
the same, among those of what is merged. -/
theorem entries_merged {before : List (ParameterKey × RawParameter)}
    (h : entries.foldlM (mergeParameter document) before = .ok merged) :
    ∀ entry ∈ entries, ∃ found, rawParameter document entry = .ok found ∧
      ∀ p, found = some p → ∃ key ∈ keys merged, key = p.key ∨ (key == p.key) = true := by
  induction entries generalizing before with
  | nil => simp
  | cons first rest ih =>
    rw [List.foldlM_cons] at h
    obtain ⟨after, hstep, h⟩ := of_bind_ok h
    rintro entry (_ | ⟨_, hentry⟩)
    · obtain ⟨found, hfound, hput⟩ := of_bind_ok hstep
      refine ⟨found, hfound, ?_⟩
      rintro p rfl
      simp only at hput
      split at hput
      · cases hput
        obtain ⟨key, hkey, hsame⟩ := exists_mem_keys_put p.key p before
        have hkept : key ∈ keys merged := of_foldlM_ok (Q := fun m => key ∈ keys m) hkey
          (fun _ _ _ _ hin hnext => mem_keys_of_mergeParameter hin hnext) h
        exact ⟨key, hkept, hsame⟩
      · cases hput
    · exact ih h entry hentry

/-- The keys of parameters that are read are names and places that can be read. -/
theorem Merged.exists_writtenKey (h : Merged document entries merged)
    (hread : ∀ e ∈ merged, ∃ q, e.2.parse = .ok q) {key : ParameterKey} (hkey : key ∈ keys merged) :
    ∃ k : WrittenKey, k.key = key := by
  obtain ⟨e, he, rfl⟩ := List.mem_map.mp hkey
  obtain ⟨q, hq⟩ := hread e he
  obtain ⟨k, hk⟩ := RawParameter.exists_writtenKey hq
  rcases h.keyed e he with heq | hsame
  · exact ⟨k, hk.trans heq.symm⟩
  · exact ⟨k, (WrittenKey.beq_key_iff.mp (hk ▸ hsame)).symm⟩

/-- **Entries whose parameters are read have names and places that can be read**, all of them. -/
theorem listedAs_of_merged (hmerged : entries.foldlM (mergeParameter document) [] = .ok merged)
    (hread : ∀ e ∈ merged, ∃ q, e.2.parse = .ok q) :
    ∃ listed, ListedAs document entries listed := by
  refine exists_listedAs fun entry hentry => ?_
  obtain ⟨found, hfound, hkeyed⟩ := entries_merged hmerged entry hentry
  refine ⟨found, hfound, fun p hp => ?_⟩
  obtain ⟨key, hkey, hsame⟩ := hkeyed p hp
  obtain ⟨k, rfl⟩ := (merged_of_foldlM hmerged).exists_writtenKey hread hkey
  rcases hsame with heq | hsame
  · exact ⟨k, heq⟩
  · exact ⟨k, (WrittenKey.key_beq_iff.mp hsame).symm⟩

/-! ## Overriding -/

/-- Some parameters are what listed ones leave of each other: there is one for every name and place
that is listed, where it is listed first, and it is read from the one that is listed last. -/
def Overridden (listed : List (WrittenKey × RawParameter)) (ps : List Parameter) : Prop :=
  List.Forall₂ (fun k q => k.texts = (some q.name, some q.location) ∧
    ∃ before p after, listed = before ++ (k, p) :: after ∧ k ∉ keys after ∧ p.parse = .ok q)
    (keys listed).eraseDups ps

/-- **What is merged and read overrides.** -/
theorem ListedAs.overridden {ps : List Parameter} (h : ListedAs document entries listed)
    (hmerged : entries.foldlM (mergeParameter document) [] = .ok merged)
    (hread : merged.mapM (fun e => e.2.parse) = .ok ps) : Overridden listed ps := by
  have heq : merged = underKeys (ofList listed) := h.eq_underKeys hmerged
  have hbeside : List.Forall₂ (fun e q => e.2.parse = .ok q) (ofList listed) ps := by
    have hraw := forall₂_of_mapM hread
    rw [heq, underKeys, List.forall₂_map_left_iff] at hraw
    exact hraw
  rw [Overridden, ← keys_ofList, keys, List.forall₂_map_left_iff, List.forall₂_iff_zip]
  refine ⟨hbeside.length_eq, fun {e q} hzip => ?_⟩
  have hparse : e.2.parse = .ok q := List.forall₂_zip hbeside hzip
  have hin : e ∈ ofList listed := (List.of_mem_zip hzip).1
  obtain ⟨before, after, hsplit, hlast⟩ :=
    lookup_ofList_eq_some.mp (lookup_of_mem nodup_keys_ofList hin)
  refine ⟨?_, before, e.2, after, hsplit, hlast, hparse⟩
  obtain ⟨hname, hplace⟩ := RawParameter.fieldText_of_parse hparse
  obtain ⟨hn, hl⟩ := ParameterKey.mk.inj (h.origin (mem_of_mem_ofList hin)).1
  rw [WrittenKey.texts, ← hn, ← hl, Data.fieldText?, Data.fieldText?, hname, hplace]
  rfl

/-! ## The parameters of an operation -/

/-- An entry of the parameters of a path, or of those of an operation on it. -/
inductive Lists (operation shared : Data) : Data → Prop where
  | shared {ds : List Data} {d : Data} (hs : shared.elementsOrNone = .ok ds) (hd : d ∈ ds) :
      Lists operation shared d
  | own {own d : Data} {ds : List Data} (ho : operation.field "parameters" = .ok own)
      (hs : own.elementsOrNone = .ok ds) (hd : d ∈ ds) : Lists operation shared d

/-- The parameters of an operation are told apart by name and place. -/
def Operation.Apart (o : Operation) : Prop :=
  (o.parameters.map fun q => (q.name, q.location)).Nodup

/-- In one place they are then told apart by name. -/
theorem Operation.Apart.nodup_names (h : o.Apart) (location : String) :
    ((o.parametersIn location).map Parameter.name).Nodup := by
  have hplaced : ((o.parametersIn location).map fun q => (q.name, q.location)).Nodup :=
    h.sublist (List.filter_sublist.map _)
  rw [List.nodup_map_iff_inj_on hplaced.of_map]
  intro q hq q' hq' hname
  have hl : q.location = location := by simpa using (List.mem_filter.mp hq).2
  have hl' : q'.location = location := by simpa using (List.mem_filter.mp hq').2
  exact List.inj_on_of_nodup_map hplaced hq hq' (by rw [hname, hl, hl'])

/-- The parameters that are left are told apart by name and place exactly if those that are listed
with different ones are. -/
theorem Overridden.apart_iff (h : Overridden listed o.parameters) :
    o.Apart ↔ ∀ j ∈ keys listed, ∀ k ∈ keys listed, j.texts = k.texts → j = k := by
  have htexts : (keys listed).eraseDups.map WrittenKey.texts =
      (o.parameters.map fun q => (q.name, q.location)).map
        fun k => (some k.1, some k.2) := by
    rw [List.map_map]
    exact map_eq_map h fun k q hkq => hkq.1
  have hsome : Function.Injective fun k : String × String => (some k.1, some k.2) := by
    intro j k hjk
    simpa [Prod.ext_iff] using hjk
  rw [Operation.Apart, ← List.nodup_map_iff hsome, ← htexts,
    List.nodup_map_iff_inj_on (Distinct.nodup_eraseDups _)]
  simp only [List.mem_eraseDups]

/-- They are if all that are listed go by texts. -/
theorem Overridden.apart_of_texts (h : Overridden listed o.parameters)
    (htexts : ∀ e ∈ listed, ∃ name location, e.1 = ⟨.text name, .text location⟩) : o.Apart := by
  refine h.apart_iff.mpr fun j hj k hk hsame => ?_
  obtain ⟨e, he, rfl⟩ := List.mem_map.mp hj
  obtain ⟨f, hf, rfl⟩ := List.mem_map.mp hk
  obtain ⟨name, location, heq⟩ := htexts e he
  obtain ⟨name', location', heq'⟩ := htexts f hf
  rw [heq, heq'] at hsame ⊢
  obtain ⟨hname, hlocation⟩ := Prod.mk.inj hsame
  cases hname
  cases hlocation
  rfl

/-- **The parameters of an operation are what the listed ones leave**, those of the path listed
first. -/
theorem Operation.exists_overridden
    (h : Operation.parse path method operation document shared = .ok o) :
    ∃ own onPath onOperation before after, shared.elementsOrNone = .ok onPath ∧
      operation.field "parameters" = .ok own ∧ own.elementsOrNone = .ok onOperation ∧
      ListedAs document.orEmpty onPath before ∧ ListedAs document.orEmpty onOperation after ∧
      Overridden (before ++ after) o.parameters := by
  obtain ⟨own, hown, hparameters⟩ := (Operation.readFrom_of_parse h).parameters
  obtain ⟨onPath, honPath, hparameters⟩ := of_bind_ok hparameters
  obtain ⟨onOperation, honOperation, hparameters⟩ := of_bind_ok hparameters
  obtain ⟨merged, hmerged, hread⟩ := of_bind_ok hparameters
  obtain ⟨listed, hlisted⟩ := listedAs_of_merged hmerged (isOk_of_mapM hread)
  obtain ⟨before, after, rfl, hbefore, hafter⟩ := hlisted.exists_append
  exact ⟨own, onPath, onOperation, before, after, honPath, hown, honOperation, hbefore, hafter,
    hlisted.overridden hmerged hread⟩

/-- **The parameters of an operation are told apart by name and place**, or an
entry stands for one that has one of these in bytes. -/
theorem Operation.apart_or (h : Operation.parse path method operation document shared = .ok o) :
    o.Apart ∨ ∃ d p, Lists operation shared d ∧
      rawParameter document.orEmpty d = .ok (some p) ∧ p.InBytes := by
  obtain ⟨own, onPath, onOperation, before, after, honPath, hown, honOperation, hbefore, hafter,
    hleft⟩ := Operation.exists_overridden h
  have hlisted : ListedAs document.orEmpty (onPath ++ onOperation) (before ++ after) :=
    hbefore.append hafter
  by_cases htexts : ∀ e ∈ before ++ after, ¬ e.2.InBytes
  · refine .inl (hleft.apart_of_texts fun e he => ?_)
    exact (hlisted.texts_or_inBytes he).resolve_right (htexts e he)
  · simp only [not_forall, not_not] at htexts
    obtain ⟨e, he, hbytes⟩ := htexts
    rcases List.mem_append.mp he with he | he
    · obtain ⟨-, d, hd, hraw⟩ := hbefore.origin he
      exact .inr ⟨d, e.2, .shared honPath hd, hraw, hbytes⟩
    · obtain ⟨-, d, hd, hraw⟩ := hafter.origin he
      exact .inr ⟨d, e.2, .own hown honOperation hd, hraw, hbytes⟩

end ApiMock
