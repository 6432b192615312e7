import ApiMock.Proofs.Json.Spelling
import ApiMock.Proofs.Naming.Identifier
import ApiMock.TypeScript.TypeExpr
/-!
# TypeScript — keys and argument names as tokens

A property name is written as it is if it is an identifier, and as a JSON
text otherwise; a parameter name that is no identifier is made one. Both go
by one test, which lets an identifier with a line feed behind it through
(`IsFed`). Such a name is no token as it stands; every other name comes to
one, and a key tells the name that it is written for (`names_as_tokens`).
-/

namespace ApiMock

namespace Naming

open Text

variable {name : String}

/-- An identifier with one line feed behind it. -/
def IsFed (name : String) : Prop :=
  name.toList.getLast? = some '\n' ∧ isIdentifierChars name.toList.dropLast = true

instance (name : String) : Decidable (IsFed name) :=
  inferInstanceAs (Decidable (_ ∧ _))

theorem IsIdentifier.not_isFed (h : IsIdentifier name) : ¬ IsFed name := by
  rintro ⟨hlast, -⟩
  exact absurd (isIdentifierPart_of_mem h _ (List.mem_of_getLast? hlast)) (by decide)

/-- **What the test lets through**: identifiers, and those with a line feed behind them. -/
theorem isIdentifier_iff : isIdentifier name = true ↔ IsIdentifier name ∨ IsFed name := by
  rw [isIdentifier, dropFinalNewline]
  split
  · rename_i hlast
    constructor
    · exact fun h => .inr ⟨hlast, h⟩
    · rintro (h | h)
      · exact absurd (isIdentifierPart_of_mem h _ (List.mem_of_getLast? hlast)) (by decide)
      · exact h.2
  · rename_i hlast
    exact ⟨.inl, fun h => h.resolve_right fun hfed => hlast hfed.1⟩

/-- Letters and digits have no line feed. -/
theorem IsAlphanumeric.not_isFed (h : IsAlphanumeric name) : ¬ IsFed name := by
  rintro ⟨hlast, -⟩
  exact absurd (h _ (List.mem_of_getLast? hlast)) (by decide)

/-- An underscore in front of letters and digits makes an identifier. -/
theorem IsAlphanumeric.isIdentifier_underscore (h : IsAlphanumeric name) :
    IsIdentifier ("_" ++ name) := by
  have hstart : isIdentifierStart '_' = true := by decide
  have hparts : name.toList.all isIdentifierPart = true := by
    rw [List.all_eq_true]
    intro c hc
    rw [isIdentifierPart, h c hc]
    rfl
  rw [IsIdentifier, String.toList_append]
  change (isIdentifierStart '_' && name.toList.all isIdentifierPart) = true
  rw [hstart, hparts]
  rfl

/-- **An argument name is an identifier**, unless it is made of one with a line feed. -/
theorem isIdentifier_identifier : IsIdentifier (identifier name) ↔ ¬ IsFed name := by
  rw [identifier]
  split_ifs with hname hcamel
  · rcases isIdentifier_iff.mp hname with h | h
    · exact iff_of_true h h.not_isFed
    · exact iff_of_false (fun hname => hname.not_isFed h) (not_not_intro h)
  · refine iff_of_true ?_ fun h => hname (isIdentifier_iff.mpr (.inr h))
    exact (isIdentifier_iff.mp hcamel).resolve_right (isAlphanumeric_camel name).not_isFed
  · refine iff_of_true ?_ fun h => hname (isIdentifier_iff.mpr (.inr h))
    exact (isAlphanumeric_camel name).isIdentifier_underscore

end Naming

namespace TypeScript

open Json (Spells Whole joined quote textUnits)
open Naming (IsFed IsIdentifier isIdentifier_iff)

variable {name other : String}

/-- A key without the mark that the property may be missing. -/
def unmarked (key : String) : String :=
  if key.toList.getLast? = some '?' then String.ofList key.toList.dropLast else key

/-- What stands for a name as a key: an identifier is itself, and another name is a JSON text
that is read as the name, with halves side by side joined. With a line feed behind it an
identifier is itself, too, which is no token. -/
inductive KeyOf (name : String) : String → Prop where
  | identifier (h : IsIdentifier name) : KeyOf name name
  | quoted {text : String} (h : ¬ IsIdentifier name) (hfed : ¬ IsFed name)
    (hspells : Spells (.str (joined name)) text.toList) : KeyOf name text
  | fed (h : IsFed name) : KeyOf name name

/-- **A name is written as a key of its own.** -/
theorem keyOf_keyToken (name : String) : KeyOf name (keyToken name) := by
  rw [keyToken]
  split
  · rename_i h
    exact (isIdentifier_iff.mp h).elim .identifier .fed
  · rename_i h
    rw [isIdentifier_iff, not_or] at h
    exact .quoted h.1 h.2 (Json.spells_quote name)

/-- The mark is the only question mark that a key can end in. -/
theorem getLast?_keyToken (name : String) : (keyToken name).toList.getLast? ≠ some '?' := by
  rw [keyToken]
  split
  · rename_i h
    intro hlast
    have hall : ∀ c ∈ name.toList, Naming.isIdentifierPart c = true ∨ c = '\n' :=
      Naming.isIdentifierPart_or_of_mem h
    exact absurd (hall _ (List.mem_of_getLast? hlast)) (by decide)
  · rw [quote, String.toList_ofList, List.getLast?_concat]
    decide

theorem unmarked_propertyKey (name : String) (required : Bool) :
    unmarked (propertyKey name required) = keyToken name := by
  cases required with
  | true =>
    rw [propertyKey, if_pos rfl, unmarked, if_neg (getLast?_keyToken name)]
  | false =>
    have hlast : (keyToken name ++ "?").toList = (keyToken name).toList ++ ['?'] :=
      String.toList_append
    rw [propertyKey, if_neg Bool.false_ne_true, unmarked, hlast, List.getLast?_concat, if_pos rfl,
      List.dropLast_concat, String.ofList_toList]

/-- A name that is written as it is has no halves. -/
theorem joined_of_isIdentifier (h : Naming.isIdentifier name = true) : joined name = name := by
  refine Json.joined_of_whole (Json.whole_of_ascii fun c hc => ?_)
  rcases Naming.isIdentifierPart_or_of_mem h c hc with hpart | rfl
  · exact Naming.toNat_lt_of_isIdentifierPart hpart
  · decide

/-- No name is written as it is and starts like one in quotes. -/
theorem keyToken_ne_quote (h : Naming.isIdentifier name = true) (s : String) : name ≠ quote s := by
  rintro rfl
  have hquote : '"' ∈ (quote s).toList := by
    rw [quote, String.toList_ofList]
    exact List.mem_append_right _ List.mem_cons_self
  exact absurd (Naming.isIdentifierPart_or_of_mem h _ hquote) (by decide)

/-- **A key tells its name**, up to halves that meet. -/
theorem joined_eq_of_keyToken (h : keyToken name = keyToken other) :
    joined name = joined other := by
  rw [keyToken, keyToken] at h
  split_ifs at h with hname hother hother
  · rw [h]
  · exact absurd h (keyToken_ne_quote hname other)
  · exact absurd h.symm (keyToken_ne_quote hother name)
  · have hread := (Json.spells_quote name).parse
    rw [h, (Json.spells_quote other).parse] at hread
    injection hread with hread
    injection hread with hread
    exact hread.symm

/-- **Names as tokens.** A key without its mark is an identifier that is the name, or a JSON text
that is read as the name; names with the same key have the same units, and are the same where
no halves meet in them. The argument name for a name is an identifier. Exactly an identifier
with a line feed behind it is written as it is, as a key and as an argument name. -/
theorem names_as_tokens (name : String) :
    (∀ required, KeyOf name (unmarked (propertyKey name required))) ∧
    (∀ other required required',
      unmarked (propertyKey name required) = unmarked (propertyKey other required') →
        textUnits name = textUnits other ∧ (Whole name → Whole other → name = other)) ∧
    (IsIdentifier (Naming.identifier name) ↔ ¬ IsFed name) ∧
    (IsFed name → Naming.identifier name = name) ∧
    (Whole name → joined name = name) := by
  refine ⟨fun required => ?_, fun other required required' h => ?_,
    Naming.isIdentifier_identifier, fun hfed => if_pos (isIdentifier_iff.mpr (.inr hfed)),
    Json.joined_of_whole⟩
  · rw [unmarked_propertyKey]
    exact keyOf_keyToken name
  · rw [unmarked_propertyKey, unmarked_propertyKey] at h
    have hjoined := joined_eq_of_keyToken h
    refine ⟨?_, fun hname hother => ?_⟩
    · rw [← Json.textUnits_joined, hjoined, Json.textUnits_joined]
    · rw [← Json.joined_of_whole hname, hjoined, Json.joined_of_whole hother]

/-- A name in brackets is a JSON text as a key, and the argument name for it has none. -/
theorem page_size_as_tokens :
    Spells (.str "page[size]") (unmarked (propertyKey "page[size]" false)).toList ∧
      Naming.identifier "page[size]" = "pageSize" ∧ IsIdentifier "pageSize" ∧
      ∀ other, Whole other → unmarked (propertyKey "page[size]" false) =
        unmarked (propertyKey other true) → other = "page[size]" := by
  obtain ⟨hkey, htells, hargument, -, hwhole⟩ := names_as_tokens "page[size]"
  have hname : Whole "page[size]" := Json.whole_of_ascii (by decide)
  have hfed : ¬ IsFed "page[size]" := by decide
  have hidentifier : Naming.identifier "page[size]" = "pageSize" := by decide +kernel
  refine ⟨?_, hidentifier, hidentifier ▸ hargument.mpr hfed, fun other hother h => ?_⟩
  · have hform := hkey false
    generalize unmarked (propertyKey "page[size]" false) = text at hform
    cases hform with
    | identifier h => exact absurd h (by decide)
    | quoted h hfed hspells => rwa [hwhole hname] at hspells
    | fed h => exact absurd h hfed
  · exact ((htells other false true h).2 hname hother).symm

/-- Not every key is a token, and not every argument name: a line feed behind a name is let
through. -/
theorem line_feed_let_through :
    (¬ ∀ name required, (IsIdentifier name ∧ unmarked (propertyKey name required) = name) ∨
      ∃ j, Spells j (unmarked (propertyKey name required)).toList) ∧
    ¬ ∀ name, IsIdentifier (Naming.identifier name) := by
  have hidentifier : Naming.identifier "a\n" = "a\n" := by decide +kernel
  have hkey : unmarked (propertyKey "a\n" true) = "a\n" := by decide +kernel
  have hnone : Json.parse "a\n".toList = none := by decide +kernel
  constructor
  · intro hall
    have hname := hall "a\n" true
    rw [hkey] at hname
    rcases hname with ⟨h, -⟩ | ⟨j, h⟩
    · exact absurd h (by decide)
    · rw [h.parse] at hnone
      cases hnone
  · intro hall
    have hname := hall "a\n"
    rw [hidentifier] at hname
    exact absurd hname (by decide)

end TypeScript

end ApiMock
