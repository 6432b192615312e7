import ApiMock.Proofs.Document.JsonValues
/-!
# Schema — where nodes come from

A node directly below another one is read from a value that stands strictly below the schema of
the other (`Reads.part`), through an `allOf` as well: a merged node has no parts but those of its
members. So every node of a tree is read from a value inside the schema (`Reads.within`), and the
tree is no deeper than the schema is (`Reads.depth_le`).
-/

namespace ApiMock

namespace Data

/-- `Inside d c` says that `d` stands in `c` at any depth, or is `c` itself. -/
inductive Inside (d : Data) : Data → Prop where
  | self : Inside d d
  | held {e c : Data} (h : Inside d e) (hc : c.Holds e) : Inside d c

theorem Inside.trans {b c d : Data} (h : Inside b c) (h' : Inside c d) : Inside b d := by
  induction h' with
  | self => exact h
  | held _ hc ih => exact .held ih hc

mutual
/-- How deep a value is: how many steps the longest way down takes. -/
def depth : Data → Nat
  | .list items => itemsDepth items
  | .pair a b => max (depth a + 1) (depth b + 1)
  | .map es => entriesDepth es
  | _ => 0

/-- How many steps the longest way down to some elements, or below them, takes. -/
def itemsDepth : List Data → Nat
  | [] => 0
  | d :: rest => max (depth d + 1) (itemsDepth rest)

/-- The same for the values of entries. -/
def entriesDepth : List (Scalar × Data) → Nat
  | [] => 0
  | (_, d) :: rest => max (depth d + 1) (entriesDepth rest)
end

/-- What stands in a collection is less deep than the collection. -/
theorem depth_lt_of_holds {c d : Data} (h : c.Holds d) : d.depth < c.depth := by
  cases c with
  | list items =>
    rw [depth]
    have hd : d ∈ items := h
    clear h
    induction items with
    | nil => cases hd
    | cons e rest ih =>
      rw [itemsDepth]
      rcases List.mem_cons.mp hd with rfl | hd
      · omega
      · have hrest := ih hd
        omega
  | pair a b =>
    rw [depth]
    rcases h with rfl | rfl <;> omega
  | map es =>
    rw [depth]
    obtain ⟨e, he, rfl⟩ := h
    induction es with
    | nil => cases he
    | cons f rest ih =>
      obtain ⟨k, v⟩ := f
      rw [entriesDepth]
      rcases List.mem_cons.mp he with rfl | he
      · simp only
        omega
      · have hrest := ih he
        omega
  | _ => exact h.elim

/-- So is what stands in it at any depth. -/
theorem Inside.depth_le {c d : Data} (h : Inside d c) : d.depth ≤ c.depth := by
  induction h with
  | self => exact Nat.le_refl _
  | held _ hc ih => exact Nat.le_trans ih (Nat.le_of_lt (depth_lt_of_holds hc))

end Data

namespace Schema

mutual
/-- How deep the tree of a node is. -/
def depth : Schema → Nat
  | .array _ _ _ (some items) => depth items + 1
  | .object _ _ _ properties _ => propertiesDepth properties
  | _ => 0

/-- How deep the trees of properties are, counted from the object that has them. -/
def propertiesDepth : List (String × Schema) → Nat
  | [] => 0
  | (_, property) :: rest => max (depth property + 1) (propertiesDepth rest)
end

theorem propertiesDepth_le_iff {properties : List (String × Schema)} {k : Nat} :
    propertiesDepth properties ≤ k ↔ ∀ e ∈ properties, e.2.depth < k := by
  induction properties with
  | nil => simp [propertiesDepth]
  | cons e rest ih =>
    rw [propertiesDepth, Nat.max_le, ih, List.forall_mem_cons, Nat.succ_le_iff]

/-- `Part n s` says that the node `n` stands directly below `s`. -/
inductive Part (n : Schema) (s : Schema) : Prop where
  | items (h : s.items? = some n)
  | property {e : String × Schema} (he : e ∈ s.properties) (h : e.2 = n)

variable {n m s : Schema} {d : Data} {es : List (Scalar × Data)} {nodes : List Schema}

/-- A node without items and properties has no parts. -/
theorem not_part (hitems : s.items? = none) (hproperties : s.properties = []) : ¬ Part n s := by
  rintro (h | ⟨he, _⟩)
  · rw [hitems] at h
    cases h
  · rw [hproperties] at he
    cases he

/-- A tree is as deep as its parts ask for. -/
theorem depth_le_iff {k : Nat} : s.depth ≤ k ↔ ∀ n, Part n s → n.depth < k := by
  have hleaf : ∀ s : Schema, s.depth = 0 → (∀ n, ¬ Part n s) →
      (s.depth ≤ k ↔ ∀ n, Part n s → n.depth < k) := fun s hdepth hnone =>
    iff_of_true (hdepth ▸ Nat.zero_le k) fun n hn => absurd hn (hnone n)
  cases s with
  | array declared format description items =>
    cases items with
    | none => exact hleaf _ (by rw [depth] <;> simp) fun _ => not_part rfl rfl
    | some i =>
      rw [depth, Nat.succ_le_iff]
      constructor
      · rintro h n (hn | ⟨he, -⟩)
        · cases hn
          exact h
        · cases he
      · exact fun h => h i (.items rfl)
  | object declared format description properties required =>
    rw [depth, propertiesDepth_le_iff]
    constructor
    · rintro h n (hn | ⟨he, rfl⟩)
      · cases hn
      · exact h _ he
    · exact fun h e he => h e.2 (.property he rfl)
  | _ => exact hleaf _ (by rw [depth] <;> simp) fun _ => not_part rfl rfl

/-! A description that is handed down changes nothing else. -/

@[simp] theorem target?_inheritDescription : (inheritDescription es s).target? = s.target? := by
  rw [inheritDescription]
  split <;> simp

@[simp] theorem items?_inheritDescription : (inheritDescription es s).items? = s.items? := by
  rw [inheritDescription]
  split <;> simp

@[simp] theorem properties_inheritDescription :
    (inheritDescription es s).properties = s.properties := by
  rw [inheritDescription]
  split <;> simp

/-- So the parts of a node stay as they are. -/
theorem part_inheritDescription : Part n (inheritDescription es s) ↔ Part n s := by
  constructor
  · rintro (h | ⟨he, h⟩)
    · exact .items (items?_inheritDescription ▸ h)
    · exact .property (properties_inheritDescription ▸ he) h
  · rintro (h | ⟨he, h⟩)
    · exact .items (items?_inheritDescription.trans h)
    · exact .property (properties_inheritDescription.symm ▸ he) h

/-- The parts of merged members are parts of the members. -/
theorem exists_part_of_mergeMembers (h : Part n (mergeMembers nodes)) : ∃ m ∈ nodes, Part n m := by
  rw [mergeMembers_eq] at h
  split at h
  · cases h with
    | items h => cases h
    | property he hn =>
      obtain ⟨m, hm, hproperty⟩ := exists_of_mem_merged he
      exact ⟨m, hm, .property hproperty hn⟩
  · exact absurd h (not_part rfl rfl)

/-- **A part of a node is read from a value that stands below.** -/
theorem Reads.part (h : Reads d s) (hn : Part n s) :
    ∃ c e, Reads c n ∧ c.Inside e ∧ d.Holds e := by
  induction h with
  | @member es members d s ha hd _ ih =>
    obtain ⟨c, e, hc, hin, he⟩ := ih (part_inheritDescription.mp hn)
    exact ⟨c, members, hc, .held (.held hin he) hd, Data.holds_of_lookup ha⟩
  | merged ha hd _ ih =>
    obtain ⟨m, hm, hn⟩ := exists_part_of_mergeMembers (part_inheritDescription.mp hn)
    obtain ⟨f, hf, rfl⟩ := List.mem_map.mp hm
    obtain ⟨c, e, hc, hin, he⟩ := ih f hf hn
    exact ⟨c, _, hc, .held (.held hin he) (hd f hf), Data.holds_of_lookup ha⟩
  | undecided => exact absurd (part_inheritDescription.mp hn) (not_part rfl rfl)
  | array hi h =>
    cases hn with
    | items hn =>
      cases hn
      exact ⟨_, _, h, .self, Data.holds_of_lookup hi⟩
    | property he _ => cases he
  | @object es ps parts required hp hd h _ _ =>
    cases hn with
    | items hn => cases hn
    | property he hn =>
      obtain ⟨k, hk⟩ := exists_of_mem_textKeyed he
      obtain ⟨f, hf, hfe⟩ := List.mem_map.mp hk
      have hread : f.2.2 = n := (Prod.mk.inj hfe).2.trans hn
      have hheld : (Data.map ps).Holds f.2.1 := ⟨_, hd f hf, rfl⟩
      exact ⟨_, _, hread ▸ h f hf, .held .self hheld, Data.holds_of_lookup hp⟩
  | _ => exact absurd hn (not_part rfl rfl)

/-- **Every node of a tree is read from a value inside the schema.** -/
theorem Reads.within (h : Reads d s) (hn : Within n s) : ∃ c, c.Inside d ∧ Reads c n := by
  induction hn generalizing d with
  | self => exact ⟨d, .self, h⟩
  | items _ ih =>
    obtain ⟨c, e, hc, hin, he⟩ := h.part (.items rfl)
    obtain ⟨b, hb, hread⟩ := ih hc
    exact ⟨b, .held (hb.trans hin) he, hread⟩
  | property hp _ ih =>
    obtain ⟨c, e, hc, hin, he⟩ := h.part (.property hp rfl)
    obtain ⟨b, hb, hread⟩ := ih hc
    exact ⟨b, .held (hb.trans hin) he, hread⟩

/-- **A tree is no deeper than the schema it is read from.** -/
theorem Reads.depth_le (h : Reads d s) : s.depth ≤ d.depth := by
  induction hk : d.depth using Nat.strongRecOn generalizing d s with
  | ind k ih =>
    rw [depth_le_iff]
    intro n hn
    obtain ⟨c, e, hc, hin, he⟩ := h.part hn
    have hbelow : c.depth < k :=
      hk ▸ Nat.lt_of_le_of_lt hin.depth_le (Data.depth_lt_of_holds he)
    exact Nat.lt_of_le_of_lt (ih c.depth hbelow hc rfl) hbelow

end Schema

end ApiMock
