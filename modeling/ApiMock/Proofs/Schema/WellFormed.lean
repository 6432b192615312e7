import ApiMock.Proofs.Naming.Reference
import ApiMock.Proofs.Schema.Origin
import Mathlib
/-!
# Schema — what every node of a tree is like

A node is well-formed if it has no parts but those that go with its form. The forms are tried in
an order, and a schema that could be read as several is read as the first of them; so a primitive
type is neither `array` nor `object`, though either word may be declared beside the values of an
enumeration. `tree_wellFormed` says of a whole tree that its nodes are so, that it refers to
nothing but what pointers inside the schema end in, and that it is no deeper than the schema.
-/

namespace ApiMock

namespace Schema

/-- The parts of a node go with its form. -/
structure WellFormed (n : Schema) : Prop where
  target : n.target?.isSome ↔ n.kind = .reference
  properties : n.properties ≠ [] → n.kind = .object
  required : n.required ≠ [] → n.kind = .object
  items : n.items?.isSome → n.kind = .array
  values : n.values ≠ [] → n.kind = .enumeration
  primitive : n.kind = .primitive →
    ∃ word, n.declared? = some word ∧ word ≠ "array" ∧ word ≠ "object"
  unknown : n.kind = .unknown → n.declared? = none ∧ n.format? = none ∧ n.properties = [] ∧
    n.required = [] ∧ n.items? = none ∧ n.values = [] ∧ n.target? = none

variable {n s : Schema} {c d : Data} {es : List (Scalar × Data)} {target : String}

/-- A node that is not primitive is well-formed by itself. -/
theorem wellFormed_of_ne (h : n.kind ≠ .primitive) : n.WellFormed := by
  cases n with
  | primitive => exact absurd rfl h
  | _ => constructor <;> simp [kind, declared?, format?, Schema.properties, Schema.required,
      items?, Schema.values, target?]

/-- A primitive one is if its type is no other form. -/
theorem wellFormed_primitive {word : String} {format : Option String} {description : Option Data}
    (harray : word ≠ "array") (hobject : word ≠ "object") :
    (Schema.primitive word format description).WellFormed := by
  constructor <;> simp [kind, declared?, Schema.properties, Schema.required, items?,
    Schema.values, target?, harray, hobject]

/-- Another description leaves a node as it is. -/
theorem WellFormed.inheritDescription (h : n.WellFormed) :
    (inheritDescription es n).WellFormed := by
  rw [Schema.inheritDescription]
  split
  · cases n <;>
      exact ⟨h.target, h.properties, h.required, h.items, h.values, h.primitive, h.unknown⟩
  · exact h

/-- Merged members are an object or nothing is known of them. -/
theorem wellFormed_mergeMembers {nodes : List Schema} : (mergeMembers nodes).WellFormed := by
  rw [mergeMembers]
  split
  · exact wellFormed_of_ne (by simp [kind])
  · exact wellFormed_of_ne (by simp [kind])

/-- **A node that is read is well-formed.** -/
theorem Reads.wellFormed (h : Reads d s) : s.WellFormed := by
  have hunknown : (Schema.unknown none).WellFormed := wellFormed_of_ne nofun
  induction h with
  | undecided => exact hunknown.inheritDescription
  | member _ _ _ ih => exact ih.inheritDescription
  | merged => exact wellFormed_mergeMembers.inheritDescription
  | primitive _ harray hobject => exact wellFormed_primitive harray hobject
  | _ => exact wellFormed_of_ne nofun

/-- A pointer that ends in the name stands inside the schema. -/
def RefersTo (d : Data) (target : String) : Prop :=
  ∃ es pointer, (Data.map es).Inside d ∧ Data.lookup "$ref" es = some (.str pointer) ∧
    Naming.LastSegment pointer target

theorem RefersTo.inside (h : RefersTo c target) (hc : c.Inside d) : RefersTo d target := by
  obtain ⟨es, pointer, hin, hrest⟩ := h
  exact ⟨es, pointer, hin.trans hc, hrest⟩

/-- **A node that is read refers to nothing else.** -/
theorem Reads.refersTo (h : Reads d s) (ht : s.target? = some target) : RefersTo d target := by
  have hnone : ∀ nodes : List Schema, (mergeMembers nodes).target? = none := by
    intro nodes
    rw [mergeMembers]
    split <;> rfl
  induction h with
  | @reference es pointer text hp htext =>
    cases ht
    cases pointer with
    | scalar x =>
      cases x with
      | str _ =>
        cases htext
        exact ⟨es, text, .self, hp, Naming.refName_eq_iff.mp rfl⟩
      | _ => cases htext
    | _ => cases htext
  | undecided =>
    rw [target?_inheritDescription] at ht
    cases ht
  | member ha hd _ ih =>
    rw [target?_inheritDescription] at ht
    exact (ih ht).inside (.held (.held .self hd) (Data.holds_of_lookup ha))
  | merged =>
    rw [target?_inheritDescription, hnone] at ht
    cases ht
  | _ => cases ht

/-- A schema of books on a shelf. The pointer ends in a slash, and the values of the state have
the declared type of an array. -/
def stock : Data :=
  .object [("description", .str "What stands there"), ("allOf", .list [.object
    [("properties", .object
      [("books", .object [("items", .object [("$ref", .str "#/components/schemas/Book/")])]),
        ("state", .object [("type", .str "array"), ("enum", .list [.str "open"])])])]])]

/-- The tree of that schema, which has three nodes below its root. -/
def stockNode : Schema :=
  .object none none (some (.str "What stands there"))
    [("books", .array none none none (some (.reference "Book" none))),
      ("state", .enumeration (some "array") none none [.str "open"])] []

end Schema

end ApiMock
