import ApiMock.Data.Fields
import ApiMock.OpenApi.Pointer
import ApiMock.Proofs.Data.JsonValue
import ApiMock.Proofs.Entries
/-!
# Data — documents with texts for keys

`withTextKeys` turns all keys into texts, at any depth that lists and
mappings lead to. What is found in such a document, by a name or by a
pointer, is such a value again.
-/

namespace ApiMock

namespace Data

/-- The keys of all mappings that lists and mappings lead to are texts. -/
inductive TextKeyed : Data → Prop where
  | scalar (s : Scalar) : TextKeyed (.scalar s)
  | pair (a b : Data) : TextKeyed (.pair a b)
  | set (members : List Scalar) : TextKeyed (.set members)
  | list {items : List Data} (h : ∀ d ∈ items, TextKeyed d) : TextKeyed (.list items)
  | map {es : List (Scalar × Data)} (keys : ∀ e ∈ es, ∃ name, e.1 = .str name)
      (values : ∀ e ∈ es, TextKeyed e.2) : TextKeyed (.map es)

variable {d e document found : Data} {es : List (Scalar × Data)} {name : String}

/-! ## Turning keys into texts -/

mutual

/-- **Every key has become a text.** -/
theorem textKeyed_of_withTextKeys {d e : Data} (h : d.withTextKeys = .ok e) : e.TextKeyed := by
  match d with
  | .map es =>
    obtain ⟨named, hnamed, h⟩ := Sequence.of_bind_ok h
    cases h
    have hall := textKeyed_of_entriesWithTextKeys hnamed
    refine .map (fun f hf => ?_) fun f hf => ?_
    · obtain ⟨g, hg, hkey⟩ := List.mem_map.mp
        ((Entries.key_of_mem_merge hf).resolve_right List.not_mem_nil)
      exact hkey ▸ (hall g hg).1
    · obtain ⟨g, hg, hvalue⟩ := (Entries.mem_of_mem_merge hf).resolve_right List.not_mem_nil
      exact hvalue ▸ (hall g hg).2
  | .list items =>
    obtain ⟨keyed, hkeyed, h⟩ := Sequence.of_bind_ok h
    cases h
    exact .list (textKeyed_of_itemsWithTextKeys hkeyed)
  | .loop _ => cases h
  | .scalar s =>
    cases h
    exact .scalar s
  | .pair a b =>
    cases h
    exact .pair a b
  | .set members =>
    cases h
    exact .set members

theorem textKeyed_of_itemsWithTextKeys {items keyed : List Data}
    (h : itemsWithTextKeys items = .ok keyed) : ∀ d ∈ keyed, d.TextKeyed := by
  match items with
  | [] =>
    cases h
    simp
  | d :: rest =>
    obtain ⟨e, he, h⟩ := Sequence.of_bind_ok h
    obtain ⟨others, hothers, h⟩ := Sequence.of_bind_ok h
    cases h
    rintro x (_ | ⟨_, hx⟩)
    · exact textKeyed_of_withTextKeys he
    · exact textKeyed_of_itemsWithTextKeys hothers x hx

theorem textKeyed_of_entriesWithTextKeys {es named : List (Scalar × Data)}
    (h : entriesWithTextKeys es = .ok named) :
    ∀ e ∈ named, (∃ name, e.1 = .str name) ∧ e.2.TextKeyed := by
  match es with
  | [] =>
    cases h
    simp
  | (k, d) :: rest =>
    obtain ⟨name, -, h⟩ := Sequence.of_bind_ok h
    obtain ⟨e, he, h⟩ := Sequence.of_bind_ok h
    obtain ⟨others, hothers, h⟩ := Sequence.of_bind_ok h
    cases h
    rintro x (_ | ⟨_, hx⟩)
    · exact ⟨⟨name, rfl⟩, textKeyed_of_withTextKeys he⟩
    · exact textKeyed_of_entriesWithTextKeys hothers x hx

end

/-! ## Values that get none

A key with a number of too many digits has no text, and a value that holds
itself has no end.
-/

/-- Why a value gets no texts for keys: something stands in it, at a depth that lists and
mappings lead to. -/
inductive Unnamed : Data → Failure → Prop where
  | loop (isMapping : Bool) : Unnamed (.loop isMapping) .endless
  | item {items : List Data} {d : Data} {f : Failure} (hd : d ∈ items) (h : Unnamed d f) :
      Unnamed (.list items) f
  | key {es : List (Scalar × Data)} {e : Scalar × Data} (he : e ∈ es) (h : e.1.hasText = false) :
      Unnamed (.map es) tooManyDigits
  | value {es : List (Scalar × Data)} {e : Scalar × Data} {f : Failure} (he : e ∈ es)
      (h : Unnamed e.2 f) : Unnamed (.map es) f

theorem Unnamed.not_spec {d : Data} {f : Failure} (h : d.Unnamed f) : ∀ fault, f ≠ .spec fault := by
  induction h with
  | loop => nofun
  | item _ _ ih => exact ih
  | key => nofun
  | value _ _ ih => exact ih

/-- A key can be shown if it has a text. -/
theorem plainText_ok_iff {k : Scalar} : (∃ t, k.plainText = .ok t) ↔ k.hasText = true := by
  rw [Scalar.plainText]
  split
  · rename_i h
    simp [h]
  · rename_i h
    simp [h]

theorem of_plainText_error {k : Scalar} {f : Failure} (h : k.plainText = .error f) :
    k.hasText = false ∧ f = tooManyDigits := by
  rw [Scalar.plainText] at h
  split at h
  · cases h
  · rename_i hk
    cases h
    exact ⟨Bool.eq_false_iff.mpr hk, rfl⟩

mutual

/-- A value without texts for keys has a reason. -/
theorem unnamed_of_withTextKeys {d : Data} {f : Failure} (h : d.withTextKeys = .error f) :
    d.Unnamed f := by
  match d with
  | .map es =>
    rcases Sequence.of_bind_error h with h | ⟨_, _, h⟩
    · exact unnamed_of_entriesWithTextKeys h
    · cases h
  | .list items =>
    rcases Sequence.of_bind_error h with h | ⟨_, _, h⟩
    · obtain ⟨d, hd, hf⟩ := unnamed_of_itemsWithTextKeys h
      exact .item hd hf
    · cases h
  | .loop isMapping =>
    cases h
    exact .loop isMapping
  | .scalar _ => cases h
  | .pair _ _ => cases h
  | .set _ => cases h

theorem unnamed_of_itemsWithTextKeys {items : List Data} {f : Failure}
    (h : itemsWithTextKeys items = .error f) : ∃ d ∈ items, d.Unnamed f := by
  match items with
  | [] => cases h
  | d :: rest =>
    rcases Sequence.of_bind_error h with h | ⟨e, _, h⟩
    · exact ⟨d, List.mem_cons_self, unnamed_of_withTextKeys h⟩
    · rcases Sequence.of_bind_error h with h | ⟨_, _, h⟩
      · obtain ⟨x, hx, hf⟩ := unnamed_of_itemsWithTextKeys h
        exact ⟨x, List.mem_cons_of_mem d hx, hf⟩
      · cases h

theorem unnamed_of_entriesWithTextKeys {es : List (Scalar × Data)} {f : Failure}
    (h : entriesWithTextKeys es = .error f) : (Data.map es).Unnamed f := by
  match es with
  | [] => cases h
  | (k, d) :: rest =>
    rcases Sequence.of_bind_error h with h | ⟨name, _, h⟩
    · obtain ⟨hkey, rfl⟩ := of_plainText_error h
      exact .key List.mem_cons_self hkey
    · rcases Sequence.of_bind_error h with h | ⟨e, _, h⟩
      · exact .value List.mem_cons_self (unnamed_of_withTextKeys h)
      · rcases Sequence.of_bind_error h with h | ⟨_, _, h⟩
        · cases unnamed_of_entriesWithTextKeys h with
          | key he hkey => exact .key (List.mem_cons_of_mem _ he) hkey
          | value he hf => exact .value (List.mem_cons_of_mem _ he) hf
        · cases h

end

/-- If a list gets texts for keys, so do its elements. -/
theorem isOk_of_itemsWithTextKeys {items keyed : List Data}
    (h : itemsWithTextKeys items = .ok keyed) : ∀ d ∈ items, ∃ e, d.withTextKeys = .ok e := by
  induction items generalizing keyed with
  | nil => simp
  | cons d rest ih =>
    obtain ⟨e, he, h⟩ := Sequence.of_bind_ok h
    obtain ⟨others, hothers, -⟩ := Sequence.of_bind_ok h
    rintro x (_ | ⟨_, hx⟩)
    · exact ⟨e, he⟩
    · exact ih hothers x hx

/-- If entries do, the keys have texts and the values get them. -/
theorem isOk_of_entriesWithTextKeys {es named : List (Scalar × Data)}
    (h : entriesWithTextKeys es = .ok named) :
    ∀ e ∈ es, e.1.hasText = true ∧ ∃ d, e.2.withTextKeys = .ok d := by
  induction es generalizing named with
  | nil => simp
  | cons e rest ih =>
    obtain ⟨name, hname, h⟩ := Sequence.of_bind_ok h
    obtain ⟨d, hd, h⟩ := Sequence.of_bind_ok h
    obtain ⟨others, hothers, -⟩ := Sequence.of_bind_ok h
    rintro x (_ | ⟨_, hx⟩)
    · exact ⟨plainText_ok_iff.mp ⟨name, hname⟩, d, hd⟩
    · exact ih hothers x hx

/-- **A value gets texts for keys** unless there is a reason against it. -/
theorem withTextKeys_isOk_iff : (∃ e, d.withTextKeys = .ok e) ↔ ∀ f, ¬ d.Unnamed f := by
  constructor
  · rintro ⟨e, he⟩ f hf
    induction hf generalizing e with
    | loop => cases he
    | item hd _ ih =>
      obtain ⟨keyed, hkeyed, -⟩ := Sequence.of_bind_ok he
      obtain ⟨e, he⟩ := isOk_of_itemsWithTextKeys hkeyed _ hd
      exact ih e he
    | key he' hkey =>
      obtain ⟨named, hnamed, -⟩ := Sequence.of_bind_ok he
      rw [(isOk_of_entriesWithTextKeys hnamed _ he').1] at hkey
      cases hkey
    | value he' _ ih =>
      obtain ⟨named, hnamed, -⟩ := Sequence.of_bind_ok he
      obtain ⟨e, he⟩ := (isOk_of_entriesWithTextKeys hnamed _ he').2
      exact ih e he
  · intro h
    cases hd : d.withTextKeys with
    | error f => exact absurd (unnamed_of_withTextKeys hd) (h f)
    | ok e => exact ⟨e, rfl⟩

/-! ## What is found -/

namespace TextKeyed

theorem key (h : (Data.map es).TextKeyed) {f : Scalar × Data} (hf : f ∈ es) :
    ∃ name, f.1 = .str name := by
  cases h with
  | map keys _ => exact keys f hf

theorem value (h : (Data.map es).TextKeyed) {f : Scalar × Data} (hf : f ∈ es) :
    f.2.TextKeyed := by
  cases h with
  | map _ values => exact values f hf

theorem item {items : List Data} (h : (Data.list items).TextKeyed) (hd : d ∈ items) :
    d.TextKeyed := by
  cases h with
  | list h => exact h d hd

theorem of_lookup (h : (Data.map es).TextKeyed) (hd : Data.lookup name es = some d) :
    d.TextKeyed := by
  obtain ⟨f, hf, rfl⟩ := holds_of_lookup hd
  exact h.value hf

/-- So is what stands in for a name that is missing. -/
theorem getD_lookup (h : (Data.map es).TextKeyed) :
    ((Data.lookup name es).getD .null).TextKeyed := by
  cases hd : Data.lookup name es with
  | none => exact .scalar .null
  | some d => exact h.of_lookup hd

/-- So are the entries of a mapping, and of what stands in for one. -/
theorem of_entries (h : d.TextKeyed) (hes : d.orEmpty.entries = .ok es) :
    (Data.map es).TextKeyed := by
  rw [Data.orEmpty] at hes
  split at hes
  · cases d with
    | map fs =>
      cases hes
      exact h
    | _ => cases hes
  · cases hes
    exact .map (by simp) (by simp)

end TextKeyed

/-- A mapping is what it is, empty or not. -/
@[simp] theorem orEmpty_map : (Data.map es).orEmpty = .map es := by
  cases es <;> rfl

/-- The value under a name of a mapping. -/
theorem field_map : (Data.map es).field name = .ok ((Data.lookup name es).getD .null) := rfl

/-! ## What is found under a name -/

/-- A text is the same key as itself only. -/
theorem str_beq_iff {k : Scalar} : (Scalar.str name == k) = true ↔ k = .str name := by
  cases k with
  | str other => rw [Scalar.str_beq_str, beq_iff_eq, Scalar.str.injEq, eq_comm]
  | _ => exact ⟨fun h => Bool.noConfusion h, fun h => Scalar.noConfusion h⟩

/-- What is found under a name stands under it. -/
theorem mem_of_lookup {α : Type} {es : List (Scalar × α)} {a : α}
    (h : es.lookup (.str name) = some a) : (.str name, a) ∈ es := by
  induction es with
  | nil => cases h
  | cons e rest ih =>
    obtain ⟨k, v⟩ := e
    rw [List.lookup_cons] at h
    split at h
    · rename_i hk
      rw [str_beq_iff.mp hk, ← Option.some.inj h]
      exact List.mem_cons_self
    · exact List.mem_cons_of_mem _ (ih h)

/-- Where entries with the same keys stand side by side, so does what is found under a name. -/
theorem rel_lookup {α β : Type} {R : Scalar → α → β → Prop} {es : List (Scalar × α)}
    {fs : List (Scalar × β)} (h : List.Forall₂ (fun e f => e.1 = f.1 ∧ R e.1 e.2 f.2) es fs)
    (name : String) :
    Option.Rel (R (.str name)) (es.lookup (.str name)) (fs.lookup (.str name)) := by
  induction h with
  | nil => exact .none
  | @cons e f es fs hef _ ih =>
    obtain ⟨k, a⟩ := e
    obtain ⟨k', b⟩ := f
    obtain ⟨rfl, hab⟩ := hef
    rw [List.lookup_cons, List.lookup_cons]
    cases hk : Scalar.str name == k with
    | true =>
      rw [str_beq_iff.mp hk] at hab
      exact .some hab
    | false => exact ih

/-- An entry under a text is kept where keys are taken for texts. -/
theorem mem_textKeyed {α : Type} {es : List (Scalar × α)} {a : α} (h : (.str name, a) ∈ es) :
    (name, a) ∈ textKeyed es :=
  List.mem_filterMap.mpr ⟨_, h, rfl⟩

/-- In entries under texts a name finds the same as before the keys are taken for texts. -/
theorem lookup_textKeyed {α : Type} {es : List (Scalar × α)}
    (hkeys : ∀ e ∈ es, ∃ name, e.1 = .str name) (name : String) :
    (textKeyed es).lookup name = es.lookup (.str name) := by
  induction es with
  | nil => rfl
  | cons e rest ih =>
    obtain ⟨⟨other, hother⟩, hrest⟩ := List.forall_mem_cons.mp hkeys
    obtain ⟨k, v⟩ := e
    cases hother
    have hcons : textKeyed ((.str other, v) :: rest) = (other, v) :: textKeyed rest := rfl
    rw [hcons, List.lookup_cons, List.lookup_cons, ih hrest, Scalar.str_beq_str]

end Data

end ApiMock
