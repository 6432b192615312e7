import ApiMock.Entries
import ApiMock.Proofs.Distinct
/-!
# Entries — keys and their entries

Which keys a mapping has, and what a write adds. A new key is written at
the end; no write brings in another value than its own. Several writes
leave each key once, where it first occurs, with the last of its values.
So related writes leave related entries (`Beside.ofList`).
-/

namespace ApiMock

namespace Entries

variable {κ : Type} [BEq κ] [LawfulBEq κ] {α : Type} {key : κ} {value : α}
  {entries : List (κ × α)}

omit [BEq κ] [LawfulBEq κ] in
/-- The keys of two mappings in a row. -/
theorem mem_keys_append {later : List (κ × α)} :
    key ∈ keys (entries ++ later) ↔ key ∈ keys entries ∨ key ∈ keys later := by
  rw [keys, List.map_append, List.mem_append, keys, keys]

/-- What is found under a key is one of the entries. -/
theorem mem_of_lookup (h : entries.lookup key = some value) : (key, value) ∈ entries := by
  obtain ⟨before, after, rfl, -⟩ := List.lookup_eq_some_iff.mp h
  simp

/-- Nothing is found exactly under the keys that are missing. -/
theorem lookup_eq_none_iff : entries.lookup key = none ↔ key ∉ keys entries := by
  rw [List.lookup_eq_none_iff, keys, List.mem_map]
  constructor
  · rintro h ⟨e, he, rfl⟩
    simpa using h e he
  · intro h e he
    rw [bne_iff_ne]
    rintro rfl
    exact h ⟨e, he, rfl⟩

/-- Something is found exactly under the keys that are there. -/
theorem exists_lookup_iff : (∃ v, entries.lookup key = some v) ↔ key ∈ keys entries := by
  constructor
  · rintro ⟨v, hv⟩
    exact List.mem_map.mpr ⟨_, mem_of_lookup hv, rfl⟩
  · intro h
    cases hv : entries.lookup key with
    | none => exact absurd h (lookup_eq_none_iff.mp hv)
    | some v => exact ⟨v, rfl⟩

/-- A new key is written at the end. -/
theorem put_of_notMem (h : key ∉ keys entries) :
    put key value entries = entries ++ [(key, value)] := by
  induction entries with
  | nil => rfl
  | cons e rest ih =>
    obtain ⟨k, v⟩ := e
    simp only [keys, List.map_cons, List.mem_cons, not_or] at h
    rw [put, if_neg (by simpa using Ne.symm h.1), ih h.2, List.cons_append]

omit [LawfulBEq κ] in
/-- A write brings in its own value, under its own key or one that is the
same. -/
theorem keyed_of_mem_put {e : κ × α} (h : e ∈ put key value entries) :
    (e.2 = value ∧ (e.1 = key ∨ (e.1 == key) = true)) ∨ e ∈ entries := by
  induction entries with
  | nil =>
    have he : e = (key, value) := List.mem_singleton.mp h
    exact .inl ⟨by rw [he], .inl (by rw [he])⟩
  | cons f rest ih =>
    rw [put] at h
    split at h
    · rename_i hsame
      rcases List.mem_cons.mp h with rfl | h
      · exact .inl ⟨rfl, .inr hsame⟩
      · exact .inr (List.mem_cons_of_mem _ h)
    · rcases List.mem_cons.mp h with rfl | h
      · exact .inr List.mem_cons_self
      · exact (ih h).imp id (List.mem_cons_of_mem _)

omit [LawfulBEq κ] in
/-- And no other value. -/
theorem mem_of_mem_put {e : κ × α} (h : e ∈ put key value entries) :
    e.2 = value ∨ e ∈ entries :=
  (keyed_of_mem_put h).imp_left And.left

omit [LawfulBEq κ] in
/-- Several writes bring in their own values and no others. -/
theorem mem_of_mem_merge {e : κ × α} {later : List (κ × α)} (h : e ∈ merge entries later) :
    (∃ f ∈ later, f.2 = e.2) ∨ e ∈ entries := by
  induction later generalizing entries with
  | nil => exact .inr h
  | cons f rest ih =>
    have hrest : e ∈ merge (put f.1 f.2 entries) rest := h
    rcases ih hrest with ⟨g, hg, hge⟩ | h
    · exact .inl ⟨g, List.mem_cons_of_mem f hg, hge⟩
    · rcases mem_of_mem_put h with he | h
      · exact .inl ⟨f, List.mem_cons_self, he.symm⟩
      · exact .inr h

omit [LawfulBEq κ] in
/-- Nor do they bring in other keys. -/
theorem key_of_mem_put {e : κ × α} (h : e ∈ put key value entries) :
    e.1 = key ∨ e.1 ∈ keys entries := by
  induction entries with
  | nil => exact .inl (by rw [List.mem_singleton.mp h])
  | cons f rest ih =>
    rw [put] at h
    split at h
    · rcases List.mem_cons.mp h with rfl | h
      · exact .inr List.mem_cons_self
      · exact .inr (List.mem_cons_of_mem _ (List.mem_map_of_mem h))
    · rcases List.mem_cons.mp h with rfl | h
      · exact .inr List.mem_cons_self
      · exact (ih h).imp id (List.mem_cons_of_mem _)

omit [LawfulBEq κ] in
theorem key_of_mem_merge {e : κ × α} {later : List (κ × α)} (h : e ∈ merge entries later) :
    e.1 ∈ keys later ∨ e.1 ∈ keys entries := by
  induction later generalizing entries with
  | nil => exact .inr (List.mem_map_of_mem h)
  | cons f rest ih =>
    have hrest : e ∈ merge (put f.1 f.2 entries) rest := h
    rcases ih hrest with hkey | hkey
    · exact .inl (List.mem_cons_of_mem _ hkey)
    · obtain ⟨g, hg, hge⟩ := List.mem_map.mp hkey
      rcases key_of_mem_put hg with hf | hentries
      · exact .inl (hge ▸ hf ▸ List.mem_cons_self)
      · exact .inr (hge ▸ hentries)

omit [LawfulBEq κ] in
/-- A write takes no key away. -/
theorem mem_keys_put {k : κ} (h : k ∈ keys entries) : k ∈ keys (put key value entries) := by
  induction entries with
  | nil => cases h
  | cons e rest ih =>
    rw [put]
    rcases List.mem_cons.mp h with rfl | h
    · split
      · exact List.mem_cons_self
      · exact List.mem_cons_self
    · split
      · exact List.mem_cons_of_mem _ h
      · exact List.mem_cons_of_mem _ (ih h)

omit [LawfulBEq κ] in
/-- The key that is written, or one that is the same, is there behind it. -/
theorem exists_mem_keys_put (key : κ) (value : α) (entries : List (κ × α)) :
    ∃ k ∈ keys (put key value entries), k = key ∨ (k == key) = true := by
  induction entries with
  | nil => exact ⟨key, List.mem_cons_self, .inl rfl⟩
  | cons e rest ih =>
    rw [put]
    split
    · rename_i hsame
      exact ⟨e.1, List.mem_cons_self, .inr hsame⟩
    · obtain ⟨k, hk, hsame⟩ := ih
      exact ⟨k, List.mem_cons_of_mem _ hk, hsame⟩

omit [LawfulBEq κ] in
/-- Keys can be written in another form if the same keys stay the same. -/
theorem put_mapKeys {ι : Type} [BEq ι] {f : κ → ι} (hf : ∀ j k, (f j == f k) = (j == k)) :
    put (f key) value (entries.map (Prod.map f id)) =
      (put key value entries).map (Prod.map f id) := by
  induction entries with
  | nil => rfl
  | cons e rest ih =>
    rw [List.map_cons, put, put]
    simp only [Prod.map, hf]
    split
    · rfl
    · rw [List.map_cons, ← ih]
      rfl

omit [LawfulBEq κ] in
/-- So can values. -/
theorem put_mapValues {β : Type} {f : α → β} :
    put key (f value) (entries.map (Prod.map id f)) =
      (put key value entries).map (Prod.map id f) := by
  induction entries with
  | nil => rfl
  | cons e rest ih =>
    rw [List.map_cons, put, put, Prod.map_fst, id_eq]
    split
    · rfl
    · rw [List.map_cons, ← ih]
      rfl

omit [LawfulBEq κ] in
/-- What is found is found in the other form. -/
theorem lookup_mapValues {β : Type} {f : α → β} :
    (entries.map (Prod.map id f)).lookup key = (entries.lookup key).map f := by
  induction entries with
  | nil => rfl
  | cons e rest ih =>
    rw [List.map_cons, List.lookup_cons, List.lookup_cons, ih, Prod.map_fst, id_eq]
    cases key == e.1 <;> rfl

/-! ## Several writes -/

/-- A write keeps the keys and adds its own if it is new. -/
theorem keys_put : keys (put key value entries) =
    if key ∈ keys entries then keys entries else keys entries ++ [key] := by
  split
  · rename_i h
    induction entries with
    | nil => cases h
    | cons e rest ih =>
      obtain ⟨k, v⟩ := e
      rw [put]
      split
      · rfl
      · rename_i hne
        have hin : key ∈ keys rest := by
          rcases List.mem_cons.mp h with rfl | h
          · simp at hne
          · exact h
        rw [keys, List.map_cons, keys, List.map_cons, ← keys, ih hin]
        rfl
  · rename_i h
    rw [put_of_notMem h, keys, List.map_append]
    rfl

omit [LawfulBEq κ] in
/-- Writing two lists of pairs is writing one after the other. -/
theorem merge_append {later more : List (κ × α)} :
    merge entries (later ++ more) = merge (merge entries later) more :=
  List.foldl_append

/-- Several writes leave each key once, at its first place. -/
theorem keys_merge {later : List (κ × α)} (h : (keys entries).Nodup) :
    keys (merge entries later) = (keys entries ++ keys later).eraseDups := by
  induction later generalizing entries with
  | nil =>
    have hnil : keys ([] : List (κ × α)) = [] := rfl
    rw [hnil, List.append_nil, Distinct.eraseDups_of_nodup h]
    rfl
  | cons e rest ih =>
    have hstep : merge entries (e :: rest) = merge (put e.1 e.2 entries) rest := rfl
    have hcons : keys (e :: rest) = [e.1] ++ keys rest := rfl
    rw [hstep, hcons, ← List.append_assoc]
    by_cases hin : e.1 ∈ keys entries
    · have hkeys : keys (put e.1 e.2 entries) = keys entries := by rw [keys_put, if_pos hin]
      rw [ih (hkeys ▸ h), hkeys]
      exact (Distinct.eraseDups_append_append_of_subset (by simpa using hin)).symm
    · have hkeys : keys (put e.1 e.2 entries) = keys entries ++ [e.1] := by
        rw [keys_put, if_neg hin]
      rw [ih, hkeys]
      rw [hkeys, List.nodup_append]
      refine ⟨h, by simp, ?_⟩
      rintro k hk _ (_ | ⟨_, ⟨⟩⟩) rfl
      exact hin hk

/-- No key comes twice of that. -/
theorem nodup_keys_merge {later : List (κ × α)} (h : (keys entries).Nodup) :
    (keys (merge entries later)).Nodup := by
  rw [keys_merge h]
  exact Distinct.nodup_eraseDups _

/-- Of several writes to a key the last one counts. -/
theorem lookup_merge {later : List (κ × α)} :
    (merge entries later).lookup key = (later.reverse.lookup key).or (entries.lookup key) := by
  induction later generalizing entries with
  | nil => rfl
  | cons e rest ih =>
    have hstep : merge entries (e :: rest) = merge (put e.1 e.2 entries) rest := rfl
    rw [hstep, ih, List.reverse_cons, List.lookup_append, Option.or_assoc]
    congr 1
    by_cases hk : key = e.1
    · rw [hk, lookup_put_self, List.lookup_cons, beq_self_eq_true]
      rfl
    · rw [lookup_put_of_ne hk, List.lookup_cons, beq_eq_false_iff_ne.mpr hk]
      rfl

/-- A key that is not written again keeps what was written. -/
theorem lookup_merge_last {before after : List (κ × α)} (h : key ∉ keys after) :
    (merge entries (before ++ (key, value) :: after)).lookup key = some value := by
  have hafter : after.reverse.lookup key = none := by
    rw [lookup_eq_none_iff, keys, List.map_reverse, List.mem_reverse]
    exact h
  rw [lookup_merge, List.reverse_append, List.reverse_cons, List.lookup_append,
    List.lookup_append, hafter, List.lookup_cons, beq_self_eq_true]
  rfl

/-- In a mapping with distinct keys an entry is what is found under its key. -/
theorem lookup_of_mem (h : (keys entries).Nodup) {e : κ × α} (he : e ∈ entries) :
    entries.lookup e.1 = some e.2 := by
  induction entries with
  | nil => cases he
  | cons f rest ih =>
    obtain ⟨hf, hrest⟩ := List.nodup_cons.mp h
    rcases List.mem_cons.mp he with rfl | he
    · rw [List.lookup_cons, beq_self_eq_true]
    · have hne : e.1 ≠ f.1 := fun heq => hf (heq ▸ List.mem_map_of_mem he)
      rw [List.lookup_cons, beq_eq_false_iff_ne.mpr hne]
      exact ih hrest he

/-- An entry behind several writes is one of them or was there before. -/
theorem mem_or_mem_of_mem_merge {later : List (κ × α)} (hnodup : (keys entries).Nodup) {e : κ × α}
    (he : e ∈ merge entries later) : e ∈ later ∨ e ∈ entries := by
  have hlookup := lookup_of_mem (nodup_keys_merge hnodup) he
  rw [lookup_merge, Option.or_eq_some_iff] at hlookup
  rcases hlookup with hlater | ⟨-, hentries⟩
  · exact .inl (List.mem_reverse.mp (mem_of_lookup hlater))
  · exact .inr (mem_of_lookup hentries)

/-- An entry under a key that is not written stays. -/
theorem mem_merge_of_notMem {later : List (κ × α)} (hnodup : (keys entries).Nodup) {e : κ × α}
    (he : e ∈ entries) (hkey : e.1 ∉ keys later) : e ∈ merge entries later := by
  refine mem_of_lookup ?_
  have hlater : later.reverse.lookup e.1 = none := by
    rw [lookup_eq_none_iff, keys, List.map_reverse, List.mem_reverse]
    exact hkey
  rw [lookup_merge, hlater, lookup_of_mem hnodup he]
  rfl

/-- A list of pairs writes each of its keys, once. -/
theorem keys_ofList {pairs : List (κ × α)} : keys (ofList pairs) = (keys pairs).eraseDups :=
  keys_merge List.nodup_nil

theorem nodup_keys_ofList {pairs : List (κ × α)} : (keys (ofList pairs)).Nodup :=
  nodup_keys_merge List.nodup_nil

/-- What is written stands among the pairs. -/
theorem mem_of_mem_ofList {pairs : List (κ × α)} {e : κ × α} (he : e ∈ ofList pairs) :
    e ∈ pairs := by
  have hlookup := lookup_of_mem nodup_keys_ofList he
  rw [ofList, lookup_merge, List.lookup_nil, Option.or_none] at hlookup
  exact List.mem_reverse.mp (mem_of_lookup hlookup)

/-- Of some pairs the last one with a key counts. -/
theorem lookup_ofList_eq_some {pairs : List (κ × α)} : (ofList pairs).lookup key = some value ↔
    ∃ before after, pairs = before ++ (key, value) :: after ∧ key ∉ keys after := by
  rw [ofList, lookup_merge, List.lookup_nil, Option.or_none, List.lookup_eq_some_iff]
  constructor
  · rintro ⟨later, earlier, hpairs, hlater⟩
    refine ⟨earlier.reverse, later.reverse, ?_, fun hin => ?_⟩
    · rw [← List.reverse_reverse pairs, hpairs]
      simp
    · obtain ⟨e, he, heq⟩ := List.mem_map.mp hin
      have hne := hlater e (List.mem_reverse.mp he)
      rw [heq] at hne
      simp at hne
  · rintro ⟨before, after, rfl, hafter⟩
    refine ⟨after.reverse, before.reverse, by simp, fun e he => ?_⟩
    rw [bne_iff_ne]
    rintro rfl
    exact hafter (List.mem_map_of_mem (List.mem_reverse.mp he))

/-! ## Mappings for pairs -/

/-- A mapping with distinct keys is what its own pairs write. -/
theorem ofList_eq_self (h : (keys entries).Nodup) : ofList entries = entries := by
  induction entries using List.reverseRecOn with
  | nil => rfl
  | append_singleton es e ih =>
    rw [keys, List.map_append, List.nodup_append] at h
    obtain ⟨hes, -, hnew⟩ := h
    have hfresh : e.1 ∉ keys es := fun hin => hnew e.1 hin e.1 (by simp) rfl
    have hlast : ofList (es ++ [e]) = put e.1 e.2 (ofList es) := merge_append
    rw [hlast, ih hes, put_of_notMem hfresh]

/-- Mappings with the same distinct keys and the same values are the same. -/
theorem eq_of_keys_of_lookup {other : List (κ × α)} (hnodup : (keys entries).Nodup)
    (hkeys : keys entries = keys other) (hlookup : ∀ k, entries.lookup k = other.lookup k) :
    entries = other := by
  have hvalues : ∀ es : List (κ × α), (keys es).Nodup →
      es.map some = (keys es).map fun k => (es.lookup k).map (k, ·) := by
    intro es hes
    rw [keys, List.map_map]
    refine List.map_congr_left fun e he => ?_
    rw [Function.comp_apply, lookup_of_mem hes he]
    rfl
  refine (List.map_inj_right fun _ _ => Option.some.inj).mp ?_
  rw [hvalues entries hnodup, hvalues other (hkeys ▸ hnodup), hkeys]
  exact List.map_congr_left fun k _ => by rw [hlookup]

/-- Pairs that were written into a mapping of their own write the same. -/
theorem merge_ofList {later : List (κ × α)} (h : (keys entries).Nodup) :
    merge entries (ofList later) = merge entries later := by
  have hkeys : keys (merge entries (ofList later)) = keys (merge entries later) := by
    rw [keys_merge h, keys_merge h, keys_ofList, Distinct.eraseDups_append_eraseDups]
  -- the last pair of a key in `later` is the only one of that key in the mapping
  have hlast : ∀ k, (ofList later).reverse.lookup k = later.reverse.lookup k := by
    intro k
    have htwice : (ofList (ofList later)).lookup k = (ofList later).lookup k := by
      rw [ofList_eq_self nodup_keys_ofList]
    simpa only [ofList, lookup_merge, List.lookup_nil, Option.or_none] using htwice
  refine eq_of_keys_of_lookup (nodup_keys_merge h) hkeys fun k => ?_
  rw [lookup_merge, lookup_merge, hlast]

/-- Pairs that write the same mapping are interchangeable between others. -/
theorem ofList_append_congr {pairs others before after : List (κ × α)}
    (h : ofList pairs = ofList others) :
    ofList (before ++ pairs ++ after) = ofList (before ++ others ++ after) := by
  have hnodup : (keys (ofList before)).Nodup := nodup_keys_ofList
  rw [ofList, ofList, merge_append, merge_append, merge_append, merge_append, ← ofList,
    ← merge_ofList hnodup, h, merge_ofList hnodup]

/-! ## Mappings by functions -/

/-- A mapping by a function on distinct keys, after a write. -/
theorem put_map {ks : List κ} (f : κ → α) (h : ks.Nodup) :
    put key value (ks.map fun k => (k, f k)) =
      (if key ∈ ks then ks else ks ++ [key]).map fun k => (k, if k == key then value else f k) := by
  induction ks with
  | nil => simp [put]
  | cons k rest ih =>
    obtain ⟨hk, hrest⟩ := List.nodup_cons.mp h
    rw [List.map_cons, put]
    by_cases heq : k = key
    · subst heq
      have hsame : rest.map (fun j => (j, f j)) =
          rest.map fun j => (j, if j == k then value else f j) := by
        refine List.map_congr_left fun j hj => ?_
        rw [if_neg (by simpa using fun e : j = k => hk (e ▸ hj))]
      simp [hsame]
    · have hne : key ≠ k := fun e => heq e.symm
      rw [if_neg (by simpa using heq), ih hrest]
      by_cases hin : key ∈ rest <;> simp [hin, hne, heq]

/-! ## Entries side by side -/

section Beside

variable {κ α β : Type} [BEq κ] {R : α → β → Prop} {xs later : List (κ × α)}
  {ys others : List (κ × β)}

/-- The same keys in the same places, and related values under them. -/
def Beside (R : α → β → Prop) (xs : List (κ × α)) (ys : List (κ × β)) : Prop :=
  List.Forall₂ (fun x y => x.1 = y.1 ∧ R x.2 y.2) xs ys

/-- Writing related values under a key leaves related entries. -/
theorem Beside.put {key : κ} {a : α} {b : β} (hab : R a b) (h : Beside R xs ys) :
    Beside R (put key a xs) (put key b ys) := by
  induction h with
  | nil => exact .cons ⟨rfl, hab⟩ .nil
  | @cons x y xs ys hxy hxs ih =>
    rw [Entries.put, Entries.put, hxy.1]
    split
    · exact .cons ⟨rfl, hab⟩ hxs
    · exact .cons ⟨rfl, hxy.2⟩ ih

theorem Beside.merge (h : Beside R later others) (hxs : Beside R xs ys) :
    Beside R (merge xs later) (merge ys others) := by
  induction h generalizing xs ys with
  | nil => exact hxs
  | @cons x y later others hxy _ ih =>
    rw [Entries.merge, Entries.merge, List.foldl_cons, List.foldl_cons, hxy.1]
    exact ih (hxs.put hxy.2)

theorem Beside.ofList (h : Beside R xs ys) : Beside R (ofList xs) (ofList ys) :=
  h.merge .nil

end Beside

end Entries

end ApiMock
