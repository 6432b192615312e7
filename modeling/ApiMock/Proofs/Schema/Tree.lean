import ApiMock.Schema.Basic
/-!
# Schema — the tree of a node

What stands in the tree of a node: the nodes below it, the references it
mentions and the values it enumerates. `Schema.induct` is the induction
over the tree, with one case for each form; an array without `items` is a
case of its own.
-/

namespace ApiMock

namespace Schema

/-- The induction over the tree of a node. -/
@[elab_as_elim]
theorem induct {P : Schema → Prop}
    (unknown : ∀ description, P (unknown description))
    (reference : ∀ target description, P (reference target description))
    (primitive : ∀ declared format description, P (primitive declared format description))
    (bare : ∀ declared format description, P (array declared format description none))
    (array : ∀ declared format description items, P items →
      P (array declared format description (some items)))
    (object : ∀ declared format description properties required, (∀ e ∈ properties, P e.2) →
      P (object declared format description properties required))
    (enumeration : ∀ declared format description values,
      P (enumeration declared format description values)) : ∀ s, P s
  | .unknown d => unknown d
  | .reference t d => reference t d
  | .primitive t f d => primitive t f d
  | .array t f d none => bare t f d
  | .array t f d (some i) => array t f d i
      (induct unknown reference primitive bare array object enumeration i)
  | .object t f d ps rs => object t f d ps rs fun e _ =>
      induct unknown reference primitive bare array object enumeration e.2
  | .enumeration t f d vs => enumeration t f d vs
termination_by s => sizeOf s
decreasing_by
  · simp +arith
  · have hmem := List.sizeOf_lt_of_mem ‹e ∈ ps›
    obtain ⟨name, s⟩ := e
    simp only [Prod.mk.sizeOf_spec, Schema.object.sizeOf_spec] at hmem ⊢
    omega

section

variable {n : Schema} {d : Option Data}

/-! A description is no part of what a node says otherwise. -/

@[simp] theorem kind_withDescription : (n.withDescription d).kind = n.kind := by
  cases n <;> rfl

@[simp] theorem properties_withDescription : (n.withDescription d).properties = n.properties := by
  cases n <;> rfl

@[simp] theorem required_withDescription : (n.withDescription d).required = n.required := by
  cases n <;> rfl

@[simp] theorem items?_withDescription : (n.withDescription d).items? = n.items? := by
  cases n <;> rfl

@[simp] theorem target?_withDescription : (n.withDescription d).target? = n.target? := by
  cases n <;> rfl

end

mutual
/-- How many nodes a tree has. -/
def size : Schema → Nat
  | .array _ _ _ (some items) => size items + 1
  | .object _ _ _ properties _ => sizes properties + 1
  | _ => 1

/-- How many nodes the trees of properties have. -/
def sizes : List (String × Schema) → Nat
  | [] => 0
  | (_, property) :: rest => size property + sizes rest
end

/-- A property is no larger than all of them. -/
theorem size_le_sizes {properties : List (String × Schema)} {e : String × Schema}
    (he : e ∈ properties) : e.2.size ≤ sizes properties := by
  induction properties with
  | nil => cases he
  | cons f rest ih =>
    rw [sizes]
    rcases List.mem_cons.mp he with rfl | he
    · omega
    · have hrest : e.2.size ≤ sizes rest := ih he
      omega

/-- `Within n s` says that the node `n` stands in the tree of `s`. -/
inductive Within (n : Schema) : Schema → Prop where
  | self : Within n n
  | items {declared format : Option String} {description : Option Data} {items : Schema}
      (h : Within n items) : Within n (.array declared format description (some items))
  | property {declared format : Option String} {description : Option Data}
      {properties : List (String × Schema)} {required : List String} {e : String × Schema}
      (he : e ∈ properties) (h : Within n e.2) :
      Within n (.object declared format description properties required)

/-- What stands in the tree of a node stands in that of a node above it. -/
theorem Within.trans {m n s : Schema} (h : Within m n) (h' : Within n s) : Within m s := by
  induction h' with
  | self => exact h
  | items _ ih => exact .items ih
  | property he _ ih => exact .property he ih

/-- Some node in the tree satisfies `P`. -/
def Has (P : Schema → Prop) (s : Schema) : Prop := ∃ n, Within n s ∧ P n

/-- A reference to `target` stands in the tree. -/
abbrev Mentions (s : Schema) (target : String) : Prop :=
  s.Has fun n => ∃ description, n = .reference target description

/-- An enumeration in the tree lists `value`. -/
abbrev Enumerates (s : Schema) (value : Data) : Prop :=
  s.Has fun n => ∃ declared format description values,
    n = .enumeration declared format description values ∧ value ∈ values

/-- A node above has what a node in its tree has. -/
theorem Within.has {P : Schema → Prop} {n s : Schema} (h : Within n s) (hn : n.Has P) : s.Has P := by
  obtain ⟨m, hm, hP⟩ := hn
  exact ⟨m, hm.trans h, hP⟩

/-! ## Form by form -/

section

variable {P : Schema → Prop} {declared format : Option String} {description : Option Data}

/-- A node without nodes below it has what it is itself. -/
theorem has_leaf {s : Schema} (hitems : s.items? = none) (hproperties : s.properties = []) :
    s.Has P ↔ P s := by
  constructor
  · rintro ⟨n, h, hn⟩
    cases h with
    | self => exact hn
    | items h => simp [items?] at hitems
    | property he h =>
      rw [properties] at hproperties
      simp [hproperties] at he
  · exact fun h => ⟨s, .self, h⟩

@[simp] theorem has_unknown : (unknown description).Has P ↔ P (unknown description) :=
  has_leaf rfl rfl

@[simp] theorem has_reference {target : String} :
    (reference target description).Has P ↔ P (reference target description) :=
  has_leaf rfl rfl

@[simp] theorem has_primitive {word : String} :
    (primitive word format description).Has P ↔ P (primitive word format description) :=
  has_leaf rfl rfl

@[simp] theorem has_bare : (array declared format description none).Has P ↔
    P (array declared format description none) :=
  has_leaf rfl rfl

@[simp] theorem has_enumeration {values : List Data} :
    (enumeration declared format description values).Has P ↔
      P (enumeration declared format description values) :=
  has_leaf rfl rfl

@[simp] theorem has_array {items : Schema} :
    (array declared format description (some items)).Has P ↔
      P (array declared format description (some items)) ∨ items.Has P := by
  constructor
  · rintro ⟨n, h, hn⟩
    cases h with
    | self => exact .inl hn
    | items h => exact .inr ⟨n, h, hn⟩
  · rintro (h | ⟨n, h, hn⟩)
    · exact ⟨_, .self, h⟩
    · exact ⟨n, .items h, hn⟩

@[simp] theorem has_object {properties : List (String × Schema)} {required : List String} :
    (object declared format description properties required).Has P ↔
      P (object declared format description properties required) ∨
        ∃ e ∈ properties, e.2.Has P := by
  constructor
  · rintro ⟨n, h, hn⟩
    cases h with
    | self => exact .inl hn
    | property he h => exact .inr ⟨_, he, n, h, hn⟩
  · rintro (h | ⟨e, he, n, h, hn⟩)
    · exact ⟨_, .self, h⟩
    · exact ⟨n, .property he h, hn⟩

/-- An enumeration enumerates the values it lists. -/
@[simp high] theorem enumerates_enumeration {values : List Data} {v : Data} :
    (enumeration declared format description values).Enumerates v ↔ v ∈ values := by
  rw [Enumerates, has_enumeration]
  constructor
  · rintro ⟨_, _, _, _, h, hv⟩
    cases h
    exact hv
  · exact fun hv => ⟨_, _, _, _, rfl, hv⟩

/-- Another description leaves the values of a node as they are. -/
@[simp] theorem enumerates_withDescription {s : Schema} {d : Option Data} {v : Data} :
    (s.withDescription d).Enumerates v ↔ s.Enumerates v := by
  cases s with
  | array declared format description items => cases items <;> simp [withDescription]
  | _ => simp [withDescription]

end

end Schema

end ApiMock
