import ApiMock.Naming
import ApiMock.Proofs.Text.Characters
import ApiMock.Proofs.Text.Words
/-!
# Naming — canonical names

A canonical name is made of letters and digits and does not start with a
small letter. Whatever a name is made of, its canonical form is such a
name, and taking the form again changes nothing. A group never has an
empty name.
-/

namespace ApiMock

namespace Naming

open Text

variable {cs w : List Char} {name : String}

/-- Letters and digits of which the first is no small letter. -/
structure IsCanonical (cs : List Char) : Prop where
  alphanumeric : ∀ c ∈ cs, c.isAlphanum = true
  capitalized : capitalize cs = cs

/-- Capitalising keeps letters and digits. -/
theorem isAlphanum_of_mem_capitalize (h : ∀ c ∈ w, c.isAlphanum = true) :
    ∀ c ∈ capitalize w, c.isAlphanum = true := by
  cases w with
  | nil => exact h
  | cons d rest =>
    intro c hc
    rcases List.mem_cons.mp hc with rfl | hc
    · exact isAlphanum_toUpper (h d List.mem_cons_self)
    · exact h c (List.mem_cons_of_mem d hc)

/-- **The canonical form is canonical**, whatever it is the form of. -/
theorem pascalChars_isCanonical (cs : List Char) : IsCanonical (pascalChars cs) where
  alphanumeric := by
    intro c hc
    obtain ⟨w, hw, hc⟩ := List.mem_flatMap.mp hc
    exact isAlphanum_of_mem_capitalize (forall_mem_runs w hw) c hc
  capitalized := by
    rw [pascalChars]
    cases hwords : wordsOf cs with
    | nil => rfl
    | cons w ws =>
      have hw : w ≠ [] := ne_nil_of_mem_runs w (by
        rw [← wordsOf, hwords]
        exact List.mem_cons_self)
      obtain ⟨c, rest, rfl⟩ := List.exists_cons_of_ne_nil hw
      rw [List.flatMap_cons, capitalize, List.cons_append, capitalize,
        toUpper_of_not_isLower not_isLower_toUpper]

/-- A canonical name is its own canonical form. -/
theorem IsCanonical.pascalChars_eq (h : IsCanonical cs) : pascalChars cs = cs := by
  by_cases hne : cs = []
  · rw [hne]
    rfl
  · rw [pascalChars, wordsOf, runs_of_isRun ⟨hne, h.alphanumeric⟩, List.flatMap_singleton,
      h.capitalized]

theorem IsCanonical.pascal_eq (h : IsCanonical name.toList) : pascal name = name := by
  rw [pascal, h.pascalChars_eq, String.ofList_toList]

theorem isCanonical_pascal (name : String) : IsCanonical (pascal name).toList := by
  rw [pascal, String.toList_ofList]
  exact pascalChars_isCanonical _

/-- Taking the canonical form again changes nothing. -/
@[simp] theorem pascal_pascal : pascal (pascal name) = pascal name :=
  (isCanonical_pascal name).pascal_eq

/-! ## Groups -/

/-- The name of a group is canonical. -/
theorem isCanonical_groupKey (tags : List String) : IsCanonical (groupKey tags).toList := by
  have hname : pascal defaultGroup = defaultGroup := by decide
  have hdefault : IsCanonical defaultGroup.toList := hname ▸ isCanonical_pascal defaultGroup
  cases tags with
  | nil => exact hdefault
  | cons tag rest =>
    rw [groupKey]
    split
    · exact hdefault
    · exact isCanonical_pascal tag

/-- **A group has a name**, even if the tag has no letter or digit. -/
theorem groupKey_ne_nil (tags : List String) : (groupKey tags).toList ≠ [] := by
  cases tags with
  | nil => decide
  | cons tag rest =>
    rw [groupKey]
    split
    · decide
    · rename_i h
      intro hnil
      exact h (by rw [String.toList_eq_nil_iff.mp hnil]; rfl)

end Naming

end ApiMock
