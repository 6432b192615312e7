import ApiMock.Proofs.Naming.Identifier
/-!
# Naming — argument names that meet

The name of an argument keeps the words of the name it is made of, up to the
case of the first letter (`camel_identifier`). So two names can only give one
argument name if they have one camel form, and they do so if both have to be
coined or if one is what is coined for the other (`identifier_eq_iff`).
-/

namespace ApiMock

namespace Naming

open Text

variable {a b name word : String} {cs : List Char}

/-- The argument name for a name that is no identifier. -/
def coined (name : String) : String :=
  if isIdentifier (camel name) then camel name else "_" ++ camel name

/-- An identifier stays as it is, and for other names one is coined. -/
theorem identifier_eq (name : String) :
    identifier name = if isIdentifier name then name else coined name := rfl

/-- A canonical name comes back from its form with a small first letter. -/
theorem IsCanonical.capitalize_uncapitalize (h : IsCanonical cs) :
    capitalize (uncapitalize cs) = cs := by
  cases cs with
  | nil => rfl
  | cons c rest =>
    have hc : ¬ c.isLower = true := by
      have hupper : c.toUpper = c := (List.cons.inj h.capitalized).1
      rw [← hupper]
      exact not_isLower_toUpper
    rw [uncapitalize, capitalize, toUpper_toLower hc]

/-- Letters and digits are one word. -/
theorem pascalChars_of_alphanumeric (h : ∀ c ∈ cs, c.isAlphanum = true) :
    pascalChars cs = capitalize cs := by
  by_cases hne : cs = []
  · rw [hne]
    rfl
  · rw [pascalChars, wordsOf, runs_of_isRun ⟨hne, h⟩, List.flatMap_singleton]

theorem pascalChars_camel (name : String) :
    pascalChars (camel name).toList = pascalChars name.toList := by
  rw [pascalChars_of_alphanumeric (isAlphanumeric_camel name), camel, String.toList_ofList,
    (pascalChars_isCanonical name.toList).capitalize_uncapitalize]

/-- Taking the camel form again changes nothing. -/
@[simp] theorem camel_camel : camel (camel name) = camel name := by
  rw [camel, pascalChars_camel, ← camel]

/-- Nor does an underscore in front. -/
theorem camel_underscore : camel ("_" ++ name) = camel name := by
  have hwords : pascalChars ("_" ++ name).toList = pascalChars name.toList := by
    rw [String.toList_append, pascalChars, pascalChars, wordsOf, wordsOf]
    exact congrArg _ (runs_cons_of_not (by decide))
  rw [camel, hwords, ← camel]

theorem camel_coined : camel (coined name) = camel name := by
  rw [coined]
  split
  · exact camel_camel
  · rw [camel_underscore, camel_camel]

/-- **An argument name has the camel form of the name it is made of.** -/
@[simp] theorem camel_identifier : camel (identifier name) = camel name := by
  rw [identifier_eq]
  split
  · rfl
  · exact camel_coined

/-- What is coined goes by the camel form. -/
theorem coined_eq_iff : coined a = coined b ↔ camel a = camel b := by
  constructor
  · intro h
    rw [← camel_coined, h, camel_coined]
  · intro h
    rw [coined, coined, h]

/-- For two names one argument name is made: neither is an identifier and their
camel forms are the same, or one of them is what is coined for the other. -/
inductive Meets (a b : String) : Prop where
  | both (ha : ¬ isIdentifier a) (hb : ¬ isIdentifier b) (h : camel a = camel b)
  | left (ha : isIdentifier a) (hb : ¬ isIdentifier b) (h : coined b = a)
  | right (ha : ¬ isIdentifier a) (hb : isIdentifier b) (h : coined a = b)

/-- **When two names give one argument name**: they are the same, or they meet. -/
theorem identifier_eq_iff : identifier a = identifier b ↔ a = b ∨ Meets a b := by
  constructor
  · intro h
    rw [identifier_eq, identifier_eq] at h
    split_ifs at h with ha hb hb
    · exact .inl h
    · exact .inr (.left ha hb h.symm)
    · exact .inr (.right ha hb h)
    · exact .inr (.both ha hb (coined_eq_iff.mp h))
  · rintro (rfl | ⟨ha, hb, h⟩ | ⟨ha, hb, h⟩ | ⟨ha, hb, h⟩)
    · rfl
    · rw [identifier_eq, identifier_eq, if_neg ha, if_neg hb, coined_eq_iff.mpr h]
    · rw [identifier_eq, identifier_eq, if_pos ha, if_neg hb, h]
    · rw [identifier_eq, identifier_eq, if_neg ha, if_pos hb, h]

/-- A name takes a word for its argument: it is that word, or it is no
identifier and has the word for its camel form. -/
def Takes (word name : String) : Prop :=
  name = word ∨ (¬ isIdentifier name ∧ camel name = word)

/-- **Which names give an argument name** that is its own camel form. -/
theorem identifier_eq_word_iff (hword : isIdentifier word = true) (hcamel : camel word = word) :
    identifier name = word ↔ Takes word name := by
  constructor
  · intro h
    by_cases hname : isIdentifier name = true
    · rw [identifier_eq, if_pos hname] at h
      exact .inl h
    · rw [← hcamel, ← h, camel_identifier]
      exact .inr ⟨hname, rfl⟩
  · rintro (rfl | ⟨hname, h⟩)
    · exact if_pos hword
    · rw [identifier_eq, if_neg hname, coined, h, if_pos hword]

end Naming

end ApiMock
