import ApiMock.Proofs.Document.JsonValues
import ApiMock.TypeScript.Declaration
/-!
# Schema — nodes that types can be made of

A node is usable if every description in its tree can be a comment and every
value it enumerates is a JSON value. Merging members and handing a
description down keep this.
-/

namespace ApiMock

open TypeScript Entries

namespace Schema

/-- Nothing in the node itself is in the way of a type. -/
structure Fine (n : Schema) : Prop where
  comment : ∃ c, commentOf n.description? = .ok c
  values : ∀ v ∈ n.values, v.IsJson

/-- Nothing in the tree of the node is in the way of a type. -/
def Usable (s : Schema) : Prop :=
  ¬ s.Has fun n => ¬ n.Fine

variable {s : Schema} {declared format : Option String} {description : Option Data}
  {es : List (Scalar × Data)}

/-! ## Form by form -/

theorem usable_iff_fine (hitems : s.items? = none) (hproperties : s.properties = []) :
    s.Usable ↔ s.Fine := by
  rw [Usable, has_leaf hitems hproperties, not_not]

theorem usable_array {items : Schema} (h : (array declared format description (some items)).Fine)
    (hitems : items.Usable) : (array declared format description (some items)).Usable := by
  rw [Usable, has_array]
  exact fun hbad => hbad.elim (fun hbad => hbad h) hitems

theorem usable_object {properties : List (String × Schema)} {required : List String}
    (h : (object declared format description properties required).Fine)
    (hproperties : ∀ e ∈ properties, e.2.Usable) :
    (object declared format description properties required).Usable := by
  rw [Usable, has_object]
  rintro (hbad | ⟨e, he, hbad⟩)
  · exact hbad h
  · exact hproperties e he hbad

theorem Usable.fine (h : s.Usable) : s.Fine :=
  not_not.mp fun hbad => h ⟨s, .self, hbad⟩

/-- The properties of a usable node are usable. -/
theorem Usable.of_mem_properties (h : s.Usable) {e : String × Schema} (he : e ∈ s.properties) :
    e.2.Usable := by
  cases s with
  | object t f d ps rs => exact fun hbad => h (has_object.mpr (.inr ⟨e, he, hbad⟩))
  | _ => cases he

/-- A usable node enumerates JSON values only. -/
theorem Usable.jsonValued (h : s.Usable) : s.JsonValued := by
  rintro v ⟨n, hn, declared, format, description, values, rfl, hv⟩
  exact (not_not.mp fun hbad => h ⟨_, hn, hbad⟩ : Fine _).values v hv

/-! ## What reading does -/

/-- A text can be a comment. -/
theorem commentOf_str (t : String) : ∃ c, commentOf (some (.str t)) = .ok c := by
  by_cases h : (Data.str t).truthy = true
  · exact ⟨_, if_pos h⟩
  · exact ⟨none, if_neg h⟩

/-- The description that a schema gives its node can be a comment. -/
theorem commentOf_describe (es : List (Scalar × Data)) : ∃ c, commentOf (describe es) = .ok c := by
  rw [describe]
  cases (fieldOf "description" es).fieldText? with
  | none => exact ⟨none, rfl⟩
  | some t => exact commentOf_str t

/-- Nothing is in the way of a node that nothing is known of. -/
theorem usable_unknown : (unknown none).Usable :=
  (usable_iff_fine rfl rfl).mpr ⟨⟨none, rfl⟩, by simp [values]⟩

/-- Another description that can be a comment leaves a node usable. -/
theorem Usable.withDescription (h : s.Usable) (hd : ∃ c, commentOf description = .ok c) :
    (s.withDescription description).Usable := by
  have hvalues := h.fine.values
  cases s with
  | array t f d items =>
    cases items with
    | none => exact (usable_iff_fine rfl rfl).mpr ⟨hd, hvalues⟩
    | some i => exact usable_array ⟨hd, hvalues⟩ fun hbad => h (has_array.mpr (.inr hbad))
  | object t f d ps rs =>
    exact usable_object ⟨hd, hvalues⟩ fun e he => h.of_mem_properties he
  | _ => exact (usable_iff_fine rfl rfl).mpr ⟨hd, hvalues⟩

/-- A description that is handed down leaves a node usable. -/
theorem Usable.inheritDescription (h : s.Usable)
    (hd : ∃ c, commentOf (some (fieldOf "description" es)) = .ok c) :
    (inheritDescription es s).Usable := by
  rw [Schema.inheritDescription]
  split
  · exact h.withDescription hd
  · exact h

/-- **Usable members are merged to a usable node.** -/
theorem usable_mergeMembers {nodes : List Schema} (h : ∀ n ∈ nodes, n.Usable) :
    (mergeMembers nodes).Usable := by
  rw [mergeMembers_eq]
  split
  · refine usable_object ⟨⟨none, rfl⟩, by simp [values]⟩ fun e he => ?_
    obtain ⟨n, hn, hproperty⟩ := exists_of_mem_merged he
    exact (h n hn).of_mem_properties hproperty
  · exact usable_unknown

end Schema

end ApiMock
