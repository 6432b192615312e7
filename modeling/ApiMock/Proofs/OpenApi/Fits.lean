import ApiMock.OpenApi.Models
import ApiMock.Proofs.Sequence
/-!
# OpenApi — what it means to fit

What is known of a value that fits a shape, one lemma for each shape. A
record that fits has its fields, each written as its shape says; of what it
holds under other names nothing is known.
-/

namespace ApiMock

namespace OpenApi

variable {fs : Model → List Field} {shape inner first : Shape} {others : List Shape} {m : Model}
  {d : Data} {es : List (Scalar × Data)} {f : Field}

/-- The value fits the shape. -/
def Fits (fs : Model → List Field) (shape : Shape) (d : Data) : Prop :=
  shape.check fs d = .ok ()

/-- What comes after a check that let the value through. -/
theorem of_check_bind {x : Except Misfit Unit} {k : Except Misfit Unit}
    (h : (x >>= fun _ => k) = .ok ()) : x = .ok () ∧ k = .ok () := by
  cases x with
  | error e => cases h
  | ok u => exact ⟨rfl, h⟩

theorem of_under {key : String} {x : Except Misfit Unit} (h : under key x = .ok ()) :
    x = .ok () := by
  cases x with
  | error e => cases h
  | ok u => rfl

theorem of_here {α : Type} {x : Except String α} (h : here x = .ok ()) : ∃ a, x = .ok a := by
  cases x with
  | error e => cases h
  | ok a => exact ⟨a, rfl⟩

/-! ## Texts and words -/

/-- A text field has a text. -/
theorem Fits.text (h : Fits fs .text d) : ∃ s, d.fieldText = .ok s := by
  rw [Fits, Shape.check] at h
  exact of_here h

/-- A word is a text. -/
theorem Fits.word {vocabulary : String} {choices : List String}
    (h : Fits fs (.word vocabulary choices) d) : ∃ s, d.fieldText = .ok s := by
  rw [Fits, Shape.check] at h
  obtain ⟨s, h⟩ := of_here h
  rw [Coerce.word.eq_def] at h
  split at h
  · split at h
    · rename_i t ht
      exact ⟨t, by rw [Data.fieldText, ht]⟩
    · cases h
  · rw [Coerce.literal.eq_def] at h
    split at h
    · exact ⟨_, rfl⟩
    · cases h

/-! ## Lists, mappings and choices -/

/-- What may be null is null or fits. -/
theorem Fits.optional (h : Fits fs (.optional inner) d) : d = .null ∨ Fits fs inner d := by
  rw [Fits, Shape.check.eq_def] at h
  simp only at h
  split at h
  · exact .inl rfl
  · exact .inr h

theorem fits_null : Fits fs (.optional inner) .null := by
  rw [Fits, Data.null, Shape.check]

/-- What fits also fits where it may be null. -/
theorem Fits.toOptional (h : Fits fs inner d) : Fits fs (.optional inner) d := by
  rw [Fits, Shape.check.eq_def]
  simp only
  split
  · rfl
  · exact h

theorem forall_of_checkItems {items : List Data} {n : Nat}
    (h : checkItems fs inner n items = .ok ()) : ∀ x ∈ items, Fits fs inner x := by
  induction items generalizing n with
  | nil => simp
  | cons d rest ih =>
    rw [checkItems] at h
    obtain ⟨hd, hrest⟩ := of_check_bind h
    rintro x (_ | ⟨_, hx⟩)
    · exact of_under hd
    · exact ih hrest x hx

theorem forall_of_checkMembers {members : List Scalar} {n : Nat}
    (h : checkMembers fs inner n members = .ok ()) : ∀ s ∈ members, Fits fs inner (.scalar s) := by
  induction members generalizing n with
  | nil => simp
  | cons s rest ih =>
    rw [checkMembers] at h
    obtain ⟨hs, hrest⟩ := of_check_bind h
    rintro x (_ | ⟨_, hx⟩)
    · exact of_under hs
    · exact ih hrest x hx

theorem forall_of_checkEntries (h : checkEntries fs inner es = .ok ()) :
    ∀ e ∈ es, Fits fs inner e.2 := by
  induction es with
  | nil => simp
  | cons e rest ih =>
    obtain ⟨k, d⟩ := e
    rw [checkEntries] at h
    obtain ⟨hd, hrest⟩ := of_check_bind h
    rintro x (_ | ⟨_, hx⟩)
    · exact of_under hd
    · exact ih hrest x hx

/-- A list is a list or a set, and its elements fit. -/
theorem Fits.list (h : Fits fs (.list inner) d) :
    (∃ items, d = .list items ∧ ∀ x ∈ items, Fits fs inner x) ∨
      ∃ members, d = .set members ∧ ∀ s ∈ members, Fits fs inner (.scalar s) := by
  rw [Fits, Shape.check.eq_def] at h
  simp only at h
  split at h
  · exact .inl ⟨_, rfl, forall_of_checkItems h⟩
  · exact .inr ⟨_, rfl, forall_of_checkMembers h⟩
  · cases h

/-- A list that may not be empty is one. -/
theorem Fits.nonEmptyList (h : Fits fs (.nonEmptyList inner) d) : Fits fs (.list inner) d := by
  rw [Fits, Shape.check.eq_def] at h ⊢
  simp only at h ⊢
  split at h
  · cases h
  · cases h
  · exact h
  · exact h
  · cases h

/-- The elements of a list fit. -/
theorem Fits.elements (h : Fits fs (.list inner) d) :
    ∃ ds, d.elementsOrNone = .ok ds ∧ ∀ x ∈ ds, Fits fs inner x := by
  have hnone : ∃ ds : List Data, (.ok [] : Except Failure (List Data)) = .ok ds ∧
      ∀ x ∈ ds, Fits fs inner x := ⟨[], rfl, by simp⟩
  rcases h.list with ⟨items, rfl, hitems⟩ | ⟨members, rfl, hmembers⟩
  · rw [Data.elementsOrNone]
    split
    · exact ⟨items, rfl, hitems⟩
    · exact hnone
  · rw [Data.elementsOrNone]
    split
    · refine ⟨_, rfl, fun x hx => ?_⟩
      obtain ⟨s, hs, rfl⟩ := List.mem_map.mp hx
      exact hmembers s hs
    · exact hnone

/-- So do those of a list that may be null. -/
theorem Fits.optionalElements (h : Fits fs (.optional (.list inner)) d) :
    ∃ ds, d.elementsOrNone = .ok ds ∧ ∀ x ∈ ds, Fits fs inner x := by
  rcases h.optional with rfl | h
  · exact ⟨[], rfl, by simp⟩
  · exact h.elements

/-- A mapping has values that fit. -/
theorem Fits.mapping (h : Fits fs (.mapping inner) d) :
    ∃ es, d = .map es ∧ ∀ e ∈ es, Fits fs inner e.2 := by
  rw [Fits, Shape.check.eq_def] at h
  simp only at h
  split at h
  · exact ⟨_, rfl, forall_of_checkEntries h⟩
  · cases h

/-- The entries of a mapping that may be null. -/
theorem Fits.optionalEntries (h : Fits fs (.optional (.mapping inner)) d) :
    ∃ es, d.orEmpty.entries = .ok es ∧ ∀ e ∈ es, Fits fs inner e.2 := by
  rcases h.optional with rfl | h
  · exact ⟨[], rfl, by simp⟩
  · obtain ⟨es, rfl, hes⟩ := h.mapping
    rw [Data.orEmpty]
    split
    · exact ⟨es, rfl, hes⟩
    · exact ⟨[], rfl, by simp⟩

theorem exists_of_checkOthers (h : checkOthers fs others d = true) :
    ∃ shape ∈ others, Fits fs shape d := by
  induction others with
  | nil =>
    rw [checkOthers] at h
    cases h
  | cons shape rest ih =>
    rw [checkOthers, Bool.or_eq_true] at h
    rcases h with h | h
    · refine ⟨shape, List.mem_cons_self, ?_⟩
      rw [Fits]
      cases hcheck : shape.check fs d with
      | ok u => rfl
      | error e =>
        rw [hcheck] at h
        cases h
    · obtain ⟨other, hother, h⟩ := ih h
      exact ⟨other, List.mem_cons_of_mem _ hother, h⟩

/-- A choice fits as one of its shapes. -/
theorem Fits.either (h : Fits fs (.either first others) d) :
    ∃ shape ∈ first :: others, Fits fs shape d := by
  rw [Fits, Shape.check] at h
  split at h
  · rename_i hfirst
    exact ⟨first, List.mem_cons_self, hfirst⟩
  · split at h
    · rename_i hothers
      obtain ⟨shape, hshape, h⟩ := exists_of_checkOthers hothers
      exact ⟨shape, List.mem_cons_of_mem _ hshape, h⟩
    · cases h

/-- What fits one of the other shapes of a choice fits the choice. -/
theorem Fits.other (h : Fits fs shape d) (hshape : shape ∈ others) :
    Fits fs (.either first others) d := by
  have hothers : checkOthers fs others d = true := by
    induction others with
    | nil => cases hshape
    | cons other rest ih =>
      rw [checkOthers, Bool.or_eq_true]
      rcases List.mem_cons.mp hshape with rfl | hrest
      · exact .inl (by rw [h]; rfl)
      · exact .inr (ih hrest)
  rw [Fits, Shape.check]
  split
  · rfl
  · exact if_pos hothers

/-! ## Records -/

theorem of_checkFields {fields : List Field} (h : checkFields fs fields es = .ok ()) :
    ∀ f ∈ fields, (∀ key d, f.written? es = some (key, d) → Fits fs f.shape d) ∧
      (f.written? es = none → f.required = false) := by
  induction fields with
  | nil => simp
  | cons g rest ih =>
    rw [checkFields] at h
    split at h
    · rename_i key d hwritten
      obtain ⟨hd, hrest⟩ := of_check_bind h
      rintro f (_ | ⟨_, hf⟩)
      · refine ⟨fun key' d' h' => ?_, fun h' => ?_⟩
        · rw [hwritten] at h'
          cases h'
          exact of_under hd
        · rw [hwritten] at h'
          cases h'
      · exact ih hrest f hf
    · rename_i hwritten
      split at h
      · cases of_under h
      · rename_i hrequired
        rintro f (_ | ⟨_, hf⟩)
        · refine ⟨fun key' d' h' => ?_, fun _ => by simpa using hrequired⟩
          rw [hwritten] at h'
          cases h'
        · exact ih h f hf

/-- A record is a mapping. -/
theorem Fits.record (h : Fits fs (.record m) d) :
    ∃ es, d = .map es ∧ checkFields fs (fs m) es = .ok () := by
  rw [Fits, Shape.check.eq_def] at h
  simp only at h
  split at h
  · exact ⟨_, rfl, (of_check_bind h).2⟩
  · cases h

/-- **What stands under the name of a field fits the field.** -/
theorem Fits.field (h : Fits fs (.record m) (.map es)) (hf : f ∈ fs m)
    (hd : Data.lookup f.key es = some d) : Fits fs f.shape d := by
  obtain ⟨es', heq, h⟩ := h.record
  cases heq
  refine (of_checkFields h f hf).1 f.key d ?_
  rw [Field.written?, hd]

/-- What a field says that may be missing or null. -/
theorem Fits.fieldOf (h : Fits fs (.record m) (.map es)) (hf : f ∈ fs m)
    (hshape : f.shape = .optional inner) :
    Fits fs (.optional inner) ((Data.lookup f.key es).getD .null) := by
  cases hd : Data.lookup f.key es with
  | none => exact fits_null
  | some d => exact hshape ▸ h.field hf hd

/-- The same for a field that may be missing but not null. -/
theorem Fits.orMissing (h : Fits fs (.record m) (.map es)) (hf : f ∈ fs m) :
    Fits fs (.optional f.shape) ((Data.lookup f.key es).getD .null) := by
  cases hd : Data.lookup f.key es with
  | none => exact fits_null
  | some d => exact (h.field hf hd).toOptional

/-- What must be there and has no other name is there. -/
theorem Fits.needed (h : Fits fs (.record m) (.map es)) (hf : f ∈ fs m)
    (hrequired : f.required = true) (halone : f.alternative = none) :
    ∃ d, Data.lookup f.key es = some d ∧ Fits fs f.shape d := by
  cases hd : Data.lookup f.key es with
  | some d => exact ⟨d, rfl, h.field hf hd⟩
  | none =>
    obtain ⟨es', heq, hfields⟩ := h.record
    cases heq
    have hnone : f.written? es = none := by
      rw [Field.written?, hd, halone]
      rfl
    rw [(of_checkFields hfields f hf).2 hnone] at hrequired
    cases hrequired

end OpenApi

end ApiMock
