import ApiMock.Json.Encode
import ApiMock.Proofs.Sequence
import ApiMock.TypeScript.TypeExpr
/-!
# Data — the values of a JSON text

`Data.IsJson` says which values a JSON text can hold: null, truth values,
numbers, texts, lists of such values and mappings from texts to them. A
whole number of more digits than are read at once cannot come from a text
and is none of them. Every such value has a JSON text and can stand in a
type.
-/

namespace ApiMock

namespace Data

/-- A value that a JSON text can hold. -/
inductive IsJson : Data → Prop where
  | null : IsJson (.scalar .null)
  | bool (b : Bool) : IsJson (.scalar (.bool b))
  | int {n : Int} (h : Number.hasText n) : IsJson (.scalar (.int n))
  | float (x : Binary64) : IsJson (.scalar (.float x))
  | str (s : String) : IsJson (.scalar (.str s))
  | list {items : List Data} (h : ∀ d ∈ items, IsJson d) : IsJson (.list items)
  | map {es : List (Scalar × Data)} (keys : ∀ e ∈ es, ∃ name, e.1 = .str name)
      (values : ∀ e ∈ es, IsJson e.2) : IsJson (.map es)

/-- A value stands directly in a collection: as an element, as a part of
a pair or under a key. -/
def Holds : Data → Data → Prop
  | .list items, d => d ∈ items
  | .pair a b, d => d = a ∨ d = b
  | .map es, d => ∃ e ∈ es, e.2 = d
  | _, _ => False

/-- What is found under a key stands in the mapping. -/
theorem holds_of_lookup {key : Scalar} {es : List (Scalar × Data)} {d : Data}
    (h : List.lookup key es = some d) : (Data.map es).Holds d := by
  induction es with
  | nil => simp at h
  | cons e rest ih =>
    obtain ⟨k, v⟩ := e
    rw [List.lookup_cons] at h
    split at h
    · cases h
      exact ⟨_, List.mem_cons_self, rfl⟩
    · obtain ⟨e, he, hd⟩ := ih h
      exact ⟨e, List.mem_cons_of_mem _ he, hd⟩

namespace IsJson

variable {c d : Data}

@[simp] theorem of_str {s : String} : (Data.scalar (.str s)).IsJson := .str s

/-- A mapping is a JSON value if its keys are texts and its values are JSON
values. -/
@[simp] theorem map_iff {es : List (Scalar × Data)} :
    (Data.map es).IsJson ↔ (∀ e ∈ es, ∃ name, e.1 = .str name) ∧ ∀ e ∈ es, e.2.IsJson := by
  constructor
  · rintro (_ | _ | _ | _ | _ | _ | ⟨keys, values⟩)
    exact ⟨keys, values⟩
  · exact fun h => .map h.1 h.2

/-- What stands in a JSON value is one. -/
theorem of_holds (h : c.IsJson) (hd : c.Holds d) : d.IsJson := by
  cases h with
  | list h => exact h d hd
  | map _ values =>
    obtain ⟨e, he, rfl⟩ := hd
    exact values e he
  | _ => exact hd.elim

/-- What is found under a name in a JSON object is a JSON value. -/
theorem of_lookup {es : List (Scalar × Data)} {name : String} (h : (Data.map es).IsJson)
    (hd : Data.lookup name es = some d) : d.IsJson :=
  h.of_holds (holds_of_lookup hd)

/-- So is what is found in its place. -/
theorem getD_lookup {es : List (Scalar × Data)} {name : String} {other : Data}
    (h : (Data.map es).IsJson) (ho : other.IsJson) :
    ((Data.lookup name es).getD other).IsJson := by
  cases hd : Data.lookup name es with
  | none => exact ho
  | some d => exact h.of_lookup hd

/-- The value that `orEmpty` falls back to is a JSON value. -/
theorem orEmpty (h : d.IsJson) : d.orEmpty.IsJson := by
  rw [Data.orEmpty]
  split
  · exact h
  · exact .map (by simp) (by simp)

/-- A field of a JSON value is a JSON value. -/
theorem field {name : String} (h : c.IsJson) (hd : c.field name = .ok d) : d.IsJson := by
  obtain ⟨es, hes, hd⟩ := Sequence.of_bind_ok hd
  cases hd
  cases c with
  | map es' =>
    cases hes
    exact h.getD_lookup .null
  | _ => cases hes

/-- The elements of a JSON value are JSON values. -/
theorem elements {ds : List Data} (h : c.IsJson) (hds : c.elements = .ok ds) :
    ∀ d ∈ ds, d.IsJson := by
  intro d hd
  cases h with
  | str s =>
    cases hds
    obtain ⟨t, _, rfl⟩ := List.mem_map.mp hd
    exact .str t
  | list h =>
    cases hds
    exact h d hd
  | map keys _ =>
    cases hds
    obtain ⟨e, he, rfl⟩ := List.mem_map.mp hd
    obtain ⟨name, hname⟩ := keys e he
    rw [hname]
    exact .str name
  | _ => cases hds

/-- The same where a value that counts as false has none. -/
theorem elementsOrNone {ds : List Data} (h : c.IsJson) (hds : c.elementsOrNone = .ok ds) :
    ∀ d ∈ ds, d.IsJson := by
  rw [Data.elementsOrNone] at hds
  split at hds
  · exact h.elements hds
  · cases hds
    simp

end IsJson

end Data

/-! ## JSON values have a text -/

namespace Json

/-- Entries whose keys are all texts, or all numbers, can be sorted. -/
theorem sortEntries_isOk {α : Type} {es : List (Scalar × α)} {kind : KeyKind}
    (hkind : kind ≠ .other) (keys : ∀ e ∈ es, keyKind e.1 = kind) :
    ∃ sorted, sortEntries es = .ok sorted ∧ sorted.Perm es := by
  match es with
  | [] => exact ⟨[], rfl, .nil⟩
  | [e] => exact ⟨[e], rfl, .refl _⟩
  | e :: f :: rest =>
    have hall : (keyKind e.1 ≠ .other &&
        (f :: rest).all fun r => keyKind r.1 = keyKind e.1) = true := by
      rw [keys e List.mem_cons_self, Bool.and_eq_true, List.all_eq_true]
      exact ⟨decide_eq_true hkind, fun g hg => decide_eq_true (keys g (List.mem_cons_of_mem e hg))⟩
    exact ⟨Sorting.sort (fun a b => keyBelow a.1 b.1) (e :: f :: rest), if_pos hall,
      Sorting.sort_perm⟩

/-- Entries under texts have a JSON text if their values do. -/
theorem keyed_isOk {sorted : Bool} {es : List (Scalar × Except Failure Json)}
    (keys : ∀ e ∈ es, ∃ name, e.1 = .str name) (values : ∀ e ∈ es, ∃ j, e.2 = .ok j) :
    ∃ fields, keyed sorted es = .ok fields := by
  have htexts : ∀ es' : List (Scalar × Except Failure Json), es'.Perm es →
      ∃ fields, es'.mapM (fun e => (do return (← keyText e.1, ← e.2) :
        Except Failure (String × Json))) = .ok fields := by
    intro es' hperm
    refine Sequence.mapM_isOk fun e he => ?_
    obtain ⟨name, hname⟩ := keys e (hperm.mem_iff.mp he)
    obtain ⟨j, hj⟩ := values e (hperm.mem_iff.mp he)
    exact ⟨(name, j), by rw [hname, hj]; rfl⟩
  cases sorted with
  | false => exact htexts es (.refl es)
  | true =>
    have htext : ∀ e ∈ es, keyKind e.1 = .text := fun e he => by
      obtain ⟨name, hname⟩ := keys e he
      rw [hname]
      rfl
    obtain ⟨es', hes', hperm⟩ := sortEntries_isOk (by decide) htext
    obtain ⟨fields, hfields⟩ := htexts es' hperm
    exact ⟨fields, by rw [keyed, if_pos rfl, hes']; exact hfields⟩

/-- Elements have a JSON text if each has one. -/
theorem ofItems_isOk {sorted : Bool} {items : List Data}
    (h : ∀ d ∈ items, ∃ j, ofData sorted d = .ok j) : ∃ js, ofItems sorted items = .ok js := by
  induction items with
  | nil => exact ⟨[], by rw [ofItems]⟩
  | cons d rest ih =>
    obtain ⟨j, hj⟩ := h d List.mem_cons_self
    obtain ⟨js, hjs⟩ := ih fun e he => h e (List.mem_cons_of_mem d he)
    exact ⟨j :: js, by rw [ofItems, hj, hjs]; rfl⟩

/-- The entries to be written are those of the mapping. -/
theorem ofEntries_eq_map {sorted : Bool} {es : List (Scalar × Data)} :
    ofEntries sorted es = es.map fun e => (e.1, ofData sorted e.2) := by
  induction es with
  | nil => rw [ofEntries, List.map_nil]
  | cons e rest ih => rw [ofEntries, ih, List.map_cons]

/-- **Every JSON value has a JSON text.** -/
theorem ofData_isOk {sorted : Bool} {d : Data} (h : d.IsJson) : ∃ j, ofData sorted d = .ok j := by
  induction h with
  | null => exact ⟨.null, by rw [ofData, ofScalar]⟩
  | bool b => exact ⟨.bool b, by rw [ofData, ofScalar]⟩
  | @int n h => exact ⟨.int n, by rw [ofData, ofScalar, if_pos h]⟩
  | float x => exact ⟨.float x, by rw [ofData, ofScalar]⟩
  | str s => exact ⟨.str s, by rw [ofData, ofScalar]⟩
  | list _ ih =>
    obtain ⟨js, hjs⟩ := ofItems_isOk ih
    exact ⟨.arr js, by rw [ofData, hjs]; rfl⟩
  | @map es keys _ ih =>
    obtain ⟨fields, hfields⟩ : ∃ fields, keyed sorted (ofEntries sorted es) = .ok fields := by
      rw [ofEntries_eq_map]
      refine keyed_isOk ?_ ?_
      · intro e he
        obtain ⟨f, hf, rfl⟩ := List.mem_map.mp he
        exact keys f hf
      · intro e he
        obtain ⟨f, hf, rfl⟩ := List.mem_map.mp he
        exact ih f hf
    exact ⟨.obj fields, by rw [ofData, hfields]; rfl⟩

end Json

/-- **Every JSON value can stand in a type.** -/
theorem TypeScript.Literal.ofData_isOk {d : Data} (h : d.IsJson) :
    ∃ l, Literal.ofData d = .ok l := by
  cases h with
  | null => exact ⟨.null, rfl⟩
  | bool b => exact ⟨.bool b, rfl⟩
  | @int n h => exact ⟨.int n, by rw [ofData, if_pos h]⟩
  | float x => exact ⟨.float x, rfl⟩
  | str s => exact ⟨.text s, rfl⟩
  | @list items h =>
    obtain ⟨j, hj⟩ : ∃ j, Json.ofData false (.list items) = .ok j := Json.ofData_isOk (.list h)
    exact ⟨.structured j, by change structured <$> _ = _; rw [hj]; rfl⟩
  | @map es keys values =>
    obtain ⟨j, hj⟩ : ∃ j, Json.ofData false (.map es) = .ok j := Json.ofData_isOk (.map keys values)
    exact ⟨.structured j, by change structured <$> _ = _; rw [hj]; rfl⟩

end ApiMock
