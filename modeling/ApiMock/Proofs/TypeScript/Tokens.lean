import ApiMock.Proofs.TypeScript.Grammar
/-!
# TypeScript — texts cut into tokens

What is printed is put together from words, texts, numbers and marks. Each
is cut off as the token that it is, words and numbers only in front of what
does not go on with them (`Bounded`). So a text is cut where its parts were
put together.
-/

namespace ApiMock

namespace TypeScript

open Naming (isIdentifierStart isIdentifierPart isIdentifierChars)

/-- What does not go on with a word or a number. -/
def Bounded (rest : List Char) : Prop :=
  ∀ c ∈ rest.head?, isIdentifierPart c = false ∧ c ≠ '.'

/-- The text is cut into the tokens in front of anything with the property. -/
def Cut (P : List Char → Prop) (cs : List Char) (ts : List Token) : Prop :=
  ∀ rest more, P rest → Lexes rest more → Lexes (cs ++ rest) (ts ++ more)

/-- In front of anything at all. -/
def Anything (_ : List Char) : Prop := True

variable {P Q : List Char → Prop} {a b cs rest : List Char} {ts us : List Token}

theorem bounded_cons {c : Char} (h : isIdentifierPart c = false ∧ c ≠ '.') :
    Bounded (c :: rest) := by
  intro d hd
  cases hd
  exact h

theorem Bounded.closed (h : Bounded rest) : Json.Closed rest := by
  intro c hc
  obtain ⟨hpart, hpoint⟩ := h c hc
  have hletters : isIdentifierPart 'e' = true ∧ isIdentifierPart 'E' = true := by decide
  refine ⟨?_, hpoint, ?_, ?_⟩
  · rw [isIdentifierPart, Bool.or_eq_false_iff, Bool.or_eq_false_iff, Char.isAlphanum,
      Bool.or_eq_false_iff] at hpart
    exact hpart.1.1.2
  · rintro rfl
    rw [hletters.1] at hpart
    cases hpart
  · rintro rfl
    rw [hletters.2] at hpart
    cases hpart

namespace Cut

/-- One text behind the other. -/
theorem append (ha : Cut P a ts) (hb : Cut Q b us) (h : ∀ rest, Q rest → P (b ++ rest)) :
    Cut Q (a ++ b) (ts ++ us) := by
  intro rest more hrest hmore
  rw [List.append_assoc, List.append_assoc]
  exact ha _ _ (h rest hrest) (hb rest more hrest hmore)

/-- A text that is cut in front of anything, with another behind it. -/
theorem before (ha : Cut Anything a ts) (hb : Cut P b us) : Cut P (a ++ b) (ts ++ us) :=
  ha.append hb fun _ _ => trivial

/-- A text that a bounded one stands behind. -/
theorem bounded {c : Char} (ha : Cut Bounded a ts) (hb : Cut P (c :: b) us)
    (hc : isIdentifierPart c = false ∧ c ≠ '.') : Cut P (a ++ c :: b) (ts ++ us) :=
  ha.append hb fun _ _ => bounded_cons hc

theorem lexes (h : Cut Bounded cs ts) : Lexes cs ts := by
  have hnothing : Bounded [] := nofun
  have hall := h [] [] hnothing .nil
  rwa [List.append_nil, List.append_nil] at hall

/-! ### Marks, words and texts -/

/-- A token. -/
theorem token {t : Token} (h : ∀ rest, P rest → nextToken? (cs ++ rest) = some (t, rest)) :
    Cut P cs [t] :=
  fun rest _ hrest hmore => .token (h rest hrest) hmore

theorem blank (h : Cut P cs ts) : Cut P (' ' :: cs) ts :=
  fun rest more hrest hmore => .blank (h rest more hrest hmore)

theorem mark {c : Char} (hc : c ∈ marks) : Cut P [c] [.mark c] := by
  have hall : ∀ c ∈ marks, c ≠ ' ' ∧ isIdentifierStart c = false ∧ c ≠ '\'' := by
    decide
  obtain ⟨hblank, hstart, hquote⟩ := hall c hc
  refine .token fun rest _ => ?_
  rw [List.singleton_append, nextToken?, if_neg hblank, hstart, if_neg Bool.false_ne_true,
    if_neg hquote, if_pos hc]

/-- An identifier is a word. -/
theorem word {w : String} (h : isIdentifierChars w.toList = true) :
    Cut Bounded w.toList [.word w] := by
  refine .token fun rest hrest => ?_
  cases hw : w.toList with
  | nil =>
    rw [hw] at h
    cases h
  | cons c tail =>
    rw [hw, isIdentifierChars, Bool.and_eq_true, List.all_eq_true] at h
    obtain ⟨hstart, htail⟩ := h
    have hblank : c ≠ ' ' := by
      rintro rfl
      exact absurd hstart (by decide)
    have hstop : rest.head?.any isIdentifierPart = false := by
      cases rest with
      | nil => rfl
      | cons d rest => exact (hrest d rfl).1
    obtain ⟨htake, hdrop⟩ := Text.takeWhile_word htail hstop
    rw [List.cons_append, nextToken?, if_neg hblank, if_pos hstart, htake, hdrop, ← hw,
      String.ofList_toList]

/-- A quoted text is read back up to its closing quote. -/
theorem readQuoted_escaped (s : List Char) : readQuoted (s.flatMap (fun c =>
    if c = '\\' then ['\\', '\\'] else if c = '\'' then ['\\', '\''] else [c]) ++ '\'' :: rest) =
      some (s, rest) := by
  induction s with
  | nil => rfl
  | cons c s ih =>
    rw [List.flatMap_cons, List.append_assoc]
    split_ifs with hslash hquote
    · rw [List.cons_append, List.singleton_append, readQuoted, ih, hslash]
      rfl
    · rw [List.cons_append, List.singleton_append, readQuoted, ih, hquote]
      rfl
    · rw [List.singleton_append, readQuoted, if_neg hslash, ih]
      · rfl
      · exact fun heq => hquote heq
      · exact fun d more heq _ => hslash heq

/-- A literal between single quotes is its text. -/
theorem text (s : String) : Cut P (stringLiteral s).toList [.text s] := by
  refine .token fun rest _ => ?_
  have hquote : ¬ isIdentifierStart '\'' = true := by decide
  have hblank : '\'' ≠ ' ' := by decide
  rw [stringLiteral, String.toList_ofList, List.append_assoc, List.singleton_append,
    List.cons_append, nextToken?, if_neg hblank, if_neg hquote, if_pos rfl, readQuoted_escaped,
    Option.map_some, String.ofList_toList]

/-! ### Keys and numbers -/

/-- What a JSON text or number starts with. -/
def StartsJson (c : Char) : Prop :=
  c ≠ ' ' ∧ isIdentifierStart c = false ∧ c ≠ '\'' ∧ c ∉ marks

instance (c : Char) : Decidable (StartsJson c) := by
  unfold StartsJson
  infer_instance

theorem startsJson_of_number {c : Char} (h : c.isDigit = true ∨ c = '-') : StartsJson c := by
  rcases h with hdigit | rfl
  · have hrange := Text.isDigit_iff.mp hdigit
    have hother : ∀ d : Char, ¬ (48 ≤ d.toNat ∧ d.toNat ≤ 57) → c ≠ d := by
      rintro d hd rfl
      exact hd hrange
    have hletter : c.isAlpha = false := by
      rw [Bool.eq_false_iff, Ne, Text.isAlpha_iff, Text.isUpper_iff, Text.isLower_iff]
      omega
    have hstart : isIdentifierStart c = false := by
      rw [isIdentifierStart, hletter, decide_eq_false (hother '_' (by decide)),
        decide_eq_false (hother '$' (by decide))]
      rfl
    refine ⟨hother ' ' (by decide), hstart, hother '\'' (by decide), ?_⟩
    simp only [marks, List.mem_cons, List.not_mem_nil, or_false, not_or]
    and_intros <;> exact hother _ (by decide)
  · decide

theorem nextToken?_json {c : Char} {j : Json} {t : Token} (hc : StartsJson c)
    (hread : Json.forget (Json.readValue (c :: cs)) = some (j, rest)) (ht : ofJson? j = some t) :
    nextToken? (c :: cs) = some (t, rest) := by
  obtain ⟨hblank, hstart, hquote, hmark⟩ := hc
  rw [nextToken?, if_neg hblank, hstart, if_neg Bool.false_ne_true, if_neg hquote, if_neg hmark,
    hread, Option.bind_some, ht, Option.map_some]

/-- A quoted name is read with its halves joined. -/
theorem quoted (name : String) :
    Cut Bounded (Json.quote name).toList [.key (Json.joined name)] := by
  refine .token fun rest hrest => ?_
  have hread := (Json.spells_quote name).reads rest hrest.closed
  rw [Json.quote, String.toList_ofList, List.cons_append, List.cons_append] at hread ⊢
  exact nextToken?_json (by decide) hread rfl

/-- A whole number is one, with its sign. -/
theorem number (n : Int) : Cut Bounded (toString n).toList [.number n] := by
  refine .token fun rest hrest => ?_
  have hspells := Json.spells_int n
  obtain ⟨c, tail, htext, -⟩ := hspells.starts
  have hread := hspells.reads rest hrest.closed
  have hc : c.isDigit = true ∨ c = '-' :=
    Json.mem_toString_int (htext ▸ List.mem_cons_self)
  rw [htext, List.cons_append] at hread ⊢
  exact nextToken?_json (startsJson_of_number hc) hread rfl

end Cut

end TypeScript

end ApiMock
