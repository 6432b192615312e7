import ApiMock.Proofs.Data.JsonValue
/-!
# Json — values that can be written with sorted keys

`Data.Writable` says which values of a document have a JSON text in which
the keys are sorted (`ofData_isOk_iff`). Beside the values that a JSON text
can hold these are pairs, and mappings from null, truth values and numbers,
as long as no two keys are of different kinds. Days, points in time, bytes
and sets have no text wherever they stand, nor has a value that holds itself
or a number of too many digits.
-/

namespace ApiMock

open Sequence

/-- Keys that can be brought into an order: texts, numbers, or a single key. -/
inductive Json.Sortable {α : Type} (es : List (Scalar × α)) : Prop where
  | single (h : es.length ≤ 1)
  | texts (h : ∀ e ∈ es, keyKind e.1 = .text)
  | numbers (h : ∀ e ∈ es, keyKind e.1 = .number)

/-- A value that has a JSON text with sorted keys. -/
inductive Data.Writable : Data → Prop where
  | null : Writable (.scalar .null)
  | bool (b : Bool) : Writable (.scalar (.bool b))
  | int {n : Int} (h : Number.hasText n) : Writable (.scalar (.int n))
  | float (x : Binary64) : Writable (.scalar (.float x))
  | str (s : String) : Writable (.scalar (.str s))
  | list {items : List Data} (h : ∀ d ∈ items, Writable d) : Writable (.list items)
  | pair {a b : Data} (ha : Writable a) (hb : Writable b) : Writable (.pair a b)
  | map {es : List (Scalar × Data)} (order : Json.Sortable es)
      (keys : ∀ e ∈ es, Writable (.scalar e.1)) (values : ∀ e ∈ es, Writable e.2) :
      Writable (.map es)

namespace Json

/-! ## Keys and scalars -/

theorem ofScalar_isOk_iff {s : Scalar} : (∃ j, ofScalar s = .ok j) ↔ (Data.scalar s).Writable := by
  constructor
  · rintro ⟨j, hj⟩
    cases s with
    | null => exact .null
    | bool b => exact .bool b
    | int n =>
      rw [ofScalar] at hj
      split at hj
      · rename_i h
        exact .int h
      · cases hj
    | float x => exact .float x
    | str s => exact .str s
    | _ => cases hj
  · intro h
    cases h with
    | null => exact ⟨_, rfl⟩
    | bool b => exact ⟨_, rfl⟩
    | @int n h => exact ⟨.int n, by rw [ofScalar, if_pos h]⟩
    | float x => exact ⟨_, rfl⟩
    | str s => exact ⟨_, rfl⟩

/-- A key has a text if it has one as a value. -/
theorem keyText_isOk_iff {k : Scalar} : (∃ t, keyText k = .ok t) ↔ (Data.scalar k).Writable := by
  rw [← ofScalar_isOk_iff]
  cases k with
  | int n =>
    rw [keyText, ofScalar]
    split <;> simp
  | _ => simp [keyText, ofScalar]

/-! ## Entries -/

variable {α : Type} {es sorted : List (Scalar × α)}

theorem of_sortEntries (h : sortEntries es = .ok sorted) : Sortable es ∧ sorted.Perm es := by
  unfold sortEntries at h
  split at h
  · cases h
    exact ⟨.single (by simp), .refl _⟩
  · cases h
    exact ⟨.single (by simp), .refl _⟩
  · rename_i e rest _
    dsimp only at h
    split at h
    · rename_i hall
      cases h
      simp only [Bool.and_eq_true, decide_eq_true_eq, List.all_eq_true] at hall
      have hkind : ∀ g ∈ e :: rest, keyKind g.1 = keyKind e.1 :=
        List.forall_mem_cons.mpr ⟨rfl, hall.2⟩
      refine ⟨?_, Sorting.sort_perm⟩
      cases hk : keyKind e.1 with
      | text => exact .texts fun g hg => (hkind g hg).trans hk
      | number => exact .numbers fun g hg => (hkind g hg).trans hk
      | other => exact absurd hk hall.1
    · cases h

theorem Sortable.isOk (h : Sortable es) :
    ∃ sorted, sortEntries es = .ok sorted ∧ sorted.Perm es := by
  cases h with
  | single h =>
    match es with
    | [] => exact ⟨[], rfl, .nil⟩
    | [e] => exact ⟨[e], rfl, .refl _⟩
    | _ :: _ :: _ => simp at h
  | texts h => exact sortEntries_isOk (by decide) h
  | numbers h => exact sortEntries_isOk (by decide) h

/-- What entries with sorted keys need. -/
theorem keyed_isOk_iff {es : List (Scalar × Except Failure Json)} :
    (∃ fields, keyed true es = .ok fields) ↔ Sortable es ∧
      (∀ e ∈ es, (Data.scalar e.1).Writable) ∧ ∀ e ∈ es, ∃ j, e.2 = .ok j := by
  constructor
  · rintro ⟨fields, h⟩
    obtain ⟨sorted, hsorted, h⟩ := of_bind_ok h
    obtain ⟨order, hperm⟩ := of_sortEntries hsorted
    have hall : ∀ e ∈ es, (Data.scalar e.1).Writable ∧ ∃ j, e.2 = .ok j := by
      intro e he
      obtain ⟨field, hfield⟩ := isOk_of_mapM h e (hperm.mem_iff.mpr he)
      obtain ⟨t, ht, hfield⟩ := of_bind_ok hfield
      obtain ⟨j, hj, -⟩ := of_bind_ok hfield
      exact ⟨keyText_isOk_iff.mp ⟨t, ht⟩, j, hj⟩
    exact ⟨order, fun e he => (hall e he).1, fun e he => (hall e he).2⟩
  · rintro ⟨order, keys, values⟩
    obtain ⟨sorted, hsorted, hperm⟩ := order.isOk
    rw [keyed, if_pos rfl, hsorted, ok_bind]
    refine mapM_isOk fun e he => ?_
    obtain ⟨t, ht⟩ := keyText_isOk_iff.mpr (keys e (hperm.mem_iff.mp he))
    obtain ⟨j, hj⟩ := values e (hperm.mem_iff.mp he)
    exact ⟨(t, j), by rw [ht, hj]; rfl⟩

/-- Sorting looks at the keys only. -/
theorem sortable_map {β : Type} {f : Scalar × α → β} :
    Sortable (es.map fun e => (e.1, f e)) ↔ Sortable es := by
  constructor
  · intro h
    cases h with
    | single h => exact .single (by simpa using h)
    | texts h => exact .texts fun e he => h _ (List.mem_map_of_mem he)
    | numbers h => exact .numbers fun e he => h _ (List.mem_map_of_mem he)
  · intro h
    cases h with
    | single h => exact .single (by simpa using h)
    | texts h =>
      refine .texts fun e he => ?_
      obtain ⟨g, hg, rfl⟩ := List.mem_map.mp he
      exact h g hg
    | numbers h =>
      refine .numbers fun e he => ?_
      obtain ⟨g, hg, rfl⟩ := List.mem_map.mp he
      exact h g hg

/-- A mapping has a text if its keys can be sorted and have texts, and its values have. -/
theorem ofData_map_isOk_iff {es : List (Scalar × Data)} :
    (∃ j, ofData true (.map es) = .ok j) ↔ Sortable es ∧
      (∀ e ∈ es, (Data.scalar e.1).Writable) ∧ ∀ e ∈ es, ∃ j, ofData true e.2 = .ok j := by
  have hmap : (∃ j, ofData true (.map es) = .ok j) ↔
      ∃ fields, keyed true (ofEntries true es) = .ok fields := by
    rw [ofData]
    cases keyed true (ofEntries true es) with
    | error f => simp [Functor.map, Except.map]
    | ok fields => simp [Functor.map, Except.map]
  rw [hmap, ofEntries_eq_map, keyed_isOk_iff, sortable_map]
  simp only [List.forall_mem_map]

/-! ## Values -/

mutual

theorem writable_of_ofData {d : Data} {j : Json} (h : ofData true d = .ok j) : d.Writable := by
  match d with
  | .scalar s => exact ofScalar_isOk_iff.mp ⟨j, h⟩
  | .list items =>
    obtain ⟨js, hjs, -⟩ := of_map_ok h
    exact .list (writable_of_ofItems hjs)
  | .pair a b =>
    obtain ⟨ja, ha, h⟩ := of_bind_ok h
    obtain ⟨jb, hb, -⟩ := of_bind_ok h
    exact .pair (writable_of_ofData ha) (writable_of_ofData hb)
  | .set _ => cases h
  | .map es =>
    obtain ⟨order, keys, values⟩ := ofData_map_isOk_iff.mp ⟨j, h⟩
    exact .map order keys (writable_of_values values)
  | .loop _ => cases h

theorem writable_of_ofItems {items : List Data} {js : List Json} (h : ofItems true items = .ok js) :
    ∀ d ∈ items, d.Writable := by
  match items with
  | [] => simp
  | d :: rest =>
    obtain ⟨j, hj, h⟩ := of_bind_ok h
    obtain ⟨others, hothers, -⟩ := of_bind_ok h
    exact List.forall_mem_cons.mpr ⟨writable_of_ofData hj, writable_of_ofItems hothers⟩

theorem writable_of_values {es : List (Scalar × Data)}
    (h : ∀ e ∈ es, ∃ j, ofData true e.2 = .ok j) : ∀ e ∈ es, e.2.Writable := by
  match es with
  | [] => simp
  | (k, d) :: rest =>
    obtain ⟨⟨j, hj⟩, hrest⟩ := List.forall_mem_cons.mp h
    exact List.forall_mem_cons.mpr ⟨writable_of_ofData hj, writable_of_values hrest⟩

end

/-- **A value has a JSON text with sorted keys exactly if it is writable.** -/
theorem ofData_isOk_iff {d : Data} : (∃ j, ofData true d = .ok j) ↔ d.Writable := by
  refine ⟨fun ⟨j, hj⟩ => writable_of_ofData hj, fun h => ?_⟩
  induction h with
  | list _ ih =>
    obtain ⟨js, hjs⟩ := ofItems_isOk ih
    exact ⟨.arr js, by rw [ofData, hjs]; rfl⟩
  | pair _ _ iha ihb =>
    obtain ⟨ja, ha⟩ := iha
    obtain ⟨jb, hb⟩ := ihb
    exact ⟨.arr [ja, jb], by rw [ofData, ha, hb]; rfl⟩
  | map order keys _ _ ih => exact ofData_map_isOk_iff.mpr ⟨order, keys, ih⟩
  | null => exact ofScalar_isOk_iff.mpr .null
  | bool b => exact ofScalar_isOk_iff.mpr (.bool b)
  | int h => exact ofScalar_isOk_iff.mpr (.int h)
  | float x => exact ofScalar_isOk_iff.mpr (.float x)
  | str s => exact ofScalar_isOk_iff.mpr (.str s)

end Json

/-- What a JSON text can hold can be written. -/
theorem Data.IsJson.writable {d : Data} (h : d.IsJson) : d.Writable :=
  Json.ofData_isOk_iff.mp (Json.ofData_isOk h)

end ApiMock
