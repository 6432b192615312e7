import ApiMock.Proofs.Naming.Canonical
import ApiMock.Spec
import Mathlib.Tactic.SplitIfs
/-!
# Naming — which names are identifiers

All names are made of letters and digits. So a name is an identifier exactly
if it starts with a letter. The canonical form starts with the first letter
or digit of what it is the form of: it is empty without one, and it is no
identifier if that is a digit. A group and a function have something to fall
back on where there is no letter or digit, but not for a digit.
-/

namespace ApiMock

namespace Naming

open Text

variable {cs : List Char} {name suffix : String} {test : Char → Bool}

/-- The first letter or digit of a name, if it has one, passes a test. -/
def opensWith (test : Char → Bool) (name : String) : Bool :=
  (name.toList.find? Char.isAlphanum).any test

/-- The name is an identifier over its whole length. -/
def IsIdentifier (name : String) : Prop :=
  isIdentifierChars name.toList = true

instance (name : String) : Decidable (IsIdentifier name) :=
  inferInstanceAs (Decidable (_ = true))

/-- A name of letters and digits only. -/
def IsAlphanumeric (name : String) : Prop :=
  ∀ c ∈ name.toList, c.isAlphanum = true

-- of the characters of the name, not of all there are
instance (name : String) : Decidable (IsAlphanumeric name) :=
  List.decidableBAll (fun c : Char => c.isAlphanum = true) name.toList

/-! ## Characters of identifiers -/

/-- An identifier has characters that may stand in one, from the first on. -/
theorem isIdentifierPart_of_mem (h : isIdentifierChars cs = true) :
    ∀ c ∈ cs, isIdentifierPart c = true := by
  cases cs with
  | nil => cases h
  | cons c rest =>
    rw [isIdentifierChars, Bool.and_eq_true, List.all_eq_true] at h
    obtain ⟨hstart, hrest⟩ := h
    have hc : isIdentifierPart c = true := by
      rw [isIdentifierStart, Bool.or_eq_true, Bool.or_eq_true] at hstart
      rw [isIdentifierPart, Bool.or_eq_true, Bool.or_eq_true, Char.isAlphanum, Bool.or_eq_true]
      exact hstart.imp_left (Or.imp_left .inl)
    exact List.forall_mem_cons.mpr ⟨hc, hrest⟩

/-- Such characters are in ASCII. -/
theorem toNat_lt_of_isIdentifierPart {c : Char} (h : isIdentifierPart c = true) :
    c.toNat < 0x80 := by
  rw [isIdentifierPart, Bool.or_eq_true, Bool.or_eq_true, decide_eq_true_iff,
    decide_eq_true_iff] at h
  rcases h with (h | rfl) | rfl
  · rw [isAlphanum_iff, isUpper_iff, isLower_iff, isDigit_iff] at h
    omega
  · decide
  · decide

/-- A name that may be written without quotes has such characters, and a line
feed perhaps. -/
theorem isIdentifierPart_or_of_mem (h : isIdentifier name = true) :
    ∀ c ∈ name.toList, isIdentifierPart c = true ∨ c = '\n' := by
  intro c hc
  rw [isIdentifier, dropFinalNewline] at h
  split at h
  · rename_i hlast
    obtain ⟨front, hfront⟩ := List.getLast?_eq_some_iff.mp hlast
    rw [hfront, List.dropLast_concat] at h
    rw [hfront, List.mem_append, List.mem_singleton] at hc
    exact hc.imp_left (isIdentifierPart_of_mem h c)
  · exact .inl (isIdentifierPart_of_mem h c hc)

/-! ## Letters and digits -/

theorem IsAlphanumeric.append (h : IsAlphanumeric name) (hs : IsAlphanumeric suffix) :
    IsAlphanumeric (name ++ suffix) := by
  intro c hc
  rw [String.toList_append, List.mem_append] at hc
  exact hc.elim (h c) (hs c)

theorem isAlphanumeric_pascal (name : String) : IsAlphanumeric (pascal name) :=
  (isCanonical_pascal name).alphanumeric

/-- A letter or digit in lower case is one. -/
theorem isAlphanum_toLower {c : Char} (h : c.isAlphanum = true) : c.toLower.isAlphanum = true := by
  rw [isAlphanum_iff]
  exact .inr (toLower_of_isAlphanum h)

theorem isAlphanumeric_camel (name : String) : IsAlphanumeric (camel name) := by
  intro c hc
  rw [camel, String.toList_ofList] at hc
  have hpascal := (pascalChars_isCanonical name.toList).alphanumeric
  cases hcs : pascalChars name.toList with
  | nil =>
    rw [hcs] at hc
    cases hc
  | cons d rest =>
    rw [hcs] at hc hpascal
    rcases List.mem_cons.mp hc with rfl | hc
    · exact isAlphanum_toLower (hpascal d List.mem_cons_self)
    · exact hpascal c (List.mem_cons_of_mem d hc)

/-- An argument name has such characters as well. -/
theorem isIdentifierPart_identifier :
    ∀ c ∈ (identifier name).toList, isIdentifierPart c = true ∨ c = '\n' := by
  have hcamel : ∀ c ∈ (camel name).toList, isIdentifierPart c = true := by
    intro c hc
    rw [isIdentifierPart, isAlphanumeric_camel name c hc]
    rfl
  rw [identifier]
  split_ifs with hname
  · exact isIdentifierPart_or_of_mem hname
  · exact fun c hc => .inl (hcamel c hc)
  · intro c hc
    rw [String.toList_append, List.mem_append] at hc
    rcases hc with hc | hc
    · rw [List.mem_singleton.mp hc]
      exact .inl (by decide)
    · exact .inl (hcamel c hc)

/-- And it is not empty. -/
theorem identifier_ne_empty : identifier name ≠ "" := by
  have hempty : isIdentifier "" = false := by decide
  rw [identifier]
  split_ifs with hname hcamel
  · rintro rfl
    rw [hempty] at hname
    cases hname
  · intro heq
    rw [heq, hempty] at hcamel
    cases hcamel
  · intro heq
    rw [← String.toList_eq_nil_iff, String.toList_append] at heq
    cases heq

/-! ## How names start -/

/-- **Letters and digits are an identifier if they start with a letter.** -/
theorem IsAlphanumeric.isIdentifier_iff (h : IsAlphanumeric name) :
    IsIdentifier name ↔ name.toList.head?.any Char.isAlpha = true := by
  rw [IsIdentifier]
  rw [IsAlphanumeric] at h
  cases hcs : name.toList with
  | nil => simp [isIdentifierChars]
  | cons c rest =>
    rw [hcs] at h
    have hrest : rest.all isIdentifierPart = true := by
      rw [List.all_eq_true]
      intro d hd
      simp [isIdentifierPart, h d (List.mem_cons_of_mem c hd)]
    -- the two other characters that may come first are neither letters nor digits
    have hfirst : isIdentifierStart c = c.isAlpha := by
      have hc : c ≠ '_' ∧ c ≠ '$' := by
        constructor <;>
        · rintro rfl
          exact absurd (h _ List.mem_cons_self) (by decide)
      simp [isIdentifierStart, hc]
    simp [isIdentifierChars, hfirst, hrest]

/-- The canonical form starts with the first letter or digit, as a capital. -/
theorem head?_pascalChars (cs : List Char) :
    (pascalChars cs).head? = (cs.find? Char.isAlphanum).map Char.toUpper := by
  have hwords : ∀ ws : List (List Char), (∀ w ∈ ws, w ≠ []) →
      (ws.flatMap capitalize).head? = ws.flatten.head?.map Char.toUpper := by
    intro ws hws
    cases ws with
    | nil => rfl
    | cons w ws =>
      obtain ⟨c, rest, rfl⟩ := List.exists_cons_of_ne_nil (hws w List.mem_cons_self)
      rfl
  rw [pascalChars, wordsOf, hwords _ ne_nil_of_mem_runs, flatten_runs, List.head?_filter]

/-- **A canonical name is an identifier exactly if it is the form of a name
whose first letter or digit is a letter.** -/
theorem isIdentifier_pascal : IsIdentifier (pascal name) ↔ opensWith Char.isAlpha name = true := by
  rw [(isAlphanumeric_pascal name).isIdentifier_iff, pascal, String.toList_ofList,
    head?_pascalChars, opensWith]
  cases name.toList.find? Char.isAlphanum with
  | none => rfl
  | some c => simp

/-- So is one with a small first letter. -/
theorem isIdentifier_camel : IsIdentifier (camel name) ↔ opensWith Char.isAlpha name = true := by
  rw [← isIdentifier_pascal, (isAlphanumeric_camel name).isIdentifier_iff,
    (isAlphanumeric_pascal name).isIdentifier_iff, camel, pascal, String.toList_ofList,
    String.toList_ofList]
  cases pascalChars name.toList with
  | nil => rfl
  | cons c rest => simp [uncapitalize]

/-- Letters and digits behind a name that is not empty change nothing. -/
theorem isIdentifier_append (h : IsAlphanumeric name) (hne : name.toList ≠ [])
    (hs : IsAlphanumeric suffix) : IsIdentifier (name ++ suffix) ↔ IsIdentifier name := by
  rw [(h.append hs).isIdentifier_iff, h.isIdentifier_iff, String.toList_append]
  obtain ⟨c, rest, hcs⟩ := List.exists_cons_of_ne_nil hne
  rw [hcs]
  rfl

/-- The form of a name is empty if the name has no letter or digit. -/
theorem isEmpty_pascal_iff :
    (pascal name).isEmpty = true ↔ name.toList.find? Char.isAlphanum = none := by
  rw [String.isEmpty_iff, ← String.toList_eq_nil_iff, pascal, String.toList_ofList,
    ← List.head?_eq_none_iff, head?_pascalChars, Option.map_eq_none_iff]

theorem isEmpty_camel_iff :
    (camel name).isEmpty = true ↔ name.toList.find? Char.isAlphanum = none := by
  rw [← isEmpty_pascal_iff, String.isEmpty_iff, String.isEmpty_iff, ← String.toList_eq_nil_iff,
    ← String.toList_eq_nil_iff, camel, pascal, String.toList_ofList, String.toList_ofList]
  cases pascalChars name.toList <;> simp [uncapitalize]

/-- A letter or digit is one or the other. -/
theorem opensWith_isAlpha_iff (h : name.toList.find? Char.isAlphanum ≠ none) :
    opensWith Char.isAlpha name = true ↔ opensWith Char.isDigit name = false := by
  obtain ⟨c, hc⟩ := Option.ne_none_iff_exists'.mp h
  have halnum : c.isAlphanum = true := List.find?_some hc
  rw [opensWith, opensWith, hc, Option.any_some, Option.any_some]
  rw [isAlphanum_iff, isUpper_iff, isLower_iff, isDigit_iff] at halnum
  rw [← Bool.not_eq_true, isDigit_iff, isAlpha_iff, isUpper_iff, isLower_iff]
  omega

theorem opensWith_isDigit_eq_false (h : opensWith Char.isAlpha name = true) :
    opensWith Char.isDigit name = false := by
  refine (opensWith_isAlpha_iff fun hnone => ?_).mp h
  rw [opensWith, hnone] at h
  cases h

/-- A name that goes on starts as before. -/
theorem opensWith_append (h : opensWith test name = true) :
    opensWith test (name ++ suffix) = true := by
  rw [opensWith] at h ⊢
  cases hfind : name.toList.find? Char.isAlphanum with
  | none =>
    rw [hfind] at h
    cases h
  | some c =>
    rw [hfind] at h
    rw [String.toList_append, List.find?_append, hfind]
    exact h

/-! ## Groups and functions -/

/-- **The name of a group is an identifier unless the tag starts with a
digit.** -/
theorem isIdentifier_groupKey (tags : List String) :
    IsIdentifier (groupKey tags) ↔ tags.head?.any (opensWith Char.isDigit) = false := by
  have hdefault : IsIdentifier defaultGroup := by decide
  cases tags with
  | nil => exact iff_of_true hdefault rfl
  | cons tag rest =>
    rw [List.head?_cons, Option.any_some, groupKey]
    split
    · rename_i hempty
      refine iff_of_true hdefault ?_
      rw [opensWith, isEmpty_pascal_iff.mp hempty]
      rfl
    · rename_i hne
      rw [isIdentifier_pascal, opensWith_isAlpha_iff fun h => hne (isEmpty_pascal_iff.mpr h)]

/-- The names that are made of that of a group. -/
theorem isIdentifier_groupName {key : String} (h : IsCanonical key.toList) (hne : key.toList ≠ [])
    (hs : IsAlphanumeric suffix) :
    (IsIdentifier (key ++ suffix) ↔ IsIdentifier key) ∧
      (IsIdentifier (camel key ++ suffix) ↔ IsIdentifier key) := by
  have hpascal : pascal key = key := h.pascal_eq
  have hcamel : IsIdentifier (camel key) ↔ IsIdentifier key := by
    rw [isIdentifier_camel, ← isIdentifier_pascal, hpascal]
  have hcamelNe : (camel key).toList ≠ [] := fun hnil => by
    have hempty := isEmpty_pascal_iff.mpr (isEmpty_camel_iff.mp
      (String.isEmpty_iff.mpr (String.toList_eq_nil_iff.mp hnil)))
    rw [hpascal, String.isEmpty_iff] at hempty
    exact hne (String.toList_eq_nil_iff.mpr hempty)
  exact ⟨isIdentifier_append h.alphanumeric hne hs,
    (isIdentifier_append (isAlphanumeric_camel key) hcamelNe hs).trans hcamel⟩

/-- A method and the resource of a path are letters and digits, and start
with a letter. -/
theorem isIdentifier_derived {method resource : String}
    (hmethod : method ∈ Spec.methods.map upper) (hresource : IsAlphanumeric resource) :
    IsAlphanumeric (lower method ++ resource) ∧ IsIdentifier (lower method ++ resource) := by
  have hall : ∀ m ∈ Spec.methods.map upper, IsAlphanumeric (lower m) ∧ (lower m).toList ≠ [] ∧
      IsIdentifier (lower m) := by decide +kernel
  obtain ⟨halnum, hne, hidentifier⟩ := hall method hmethod
  exact ⟨halnum.append hresource, (isIdentifier_append halnum hne hresource).mpr hidentifier⟩

/-- **The name of a function is an identifier unless the declared id starts
with a digit.** -/
theorem isIdentifier_functionName {method : String} (path : String) (declaredId : Option String)
    (hmethod : method ∈ Spec.methods.map upper) :
    IsAlphanumeric (functionName method path declaredId) ∧
      (IsIdentifier (functionName method path declaredId) ↔
        declaredId.any (opensWith Char.isDigit) = false) := by
  have hresource : IsAlphanumeric
      (if (resourceName path).isEmpty then "Resource" else resourceName path) := by
    split
    · decide
    · exact isAlphanumeric_pascal _
  obtain ⟨halnum, hderived⟩ := isIdentifier_derived hmethod hresource
  cases declaredId with
  | none => exact ⟨halnum, iff_of_true hderived rfl⟩
  | some id =>
    rw [functionName, Option.any_some]
    split
    · rename_i hempty
      refine ⟨halnum, iff_of_true hderived ?_⟩
      rw [opensWith, isEmpty_camel_iff.mp hempty]
      rfl
    · rename_i hne
      refine ⟨isAlphanumeric_camel id, ?_⟩
      rw [isIdentifier_camel, opensWith_isAlpha_iff fun h => hne (isEmpty_camel_iff.mpr h)]

/-- An id that is made of a method and a path starts with a letter. -/
theorem opensWith_synthesizedId {method : String} (path : String)
    (hmethod : method ∈ Spec.methods) :
    opensWith Char.isAlpha (synthesizedId method path) = true := by
  have hall : ∀ m ∈ Spec.methods, opensWith Char.isAlpha (lower m) = true := by decide +kernel
  exact opensWith_append (hall method hmethod)

end Naming

end ApiMock
