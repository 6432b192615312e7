import ApiMock.Proofs.Json.Texts
import ApiMock.Proofs.TypeScript.Result
/-!
# TypeScript — choices between texts

An enumeration of texts is written as literals between single quotes, with
bars between them. In each of them backslashes and quotes stand behind a
backslash, so none of its own closes it, and what is read is the text. What
ends a line is written as it is: a literal with a line feed or a carriage
return is not read at all (`enum_texts_listed`).
-/

namespace ApiMock

namespace TypeScript

open Text (ofChars ofChars_append ofPoint)

variable {c : Char} {cs more rest behind : List Char} {v : List Nat} {vs : List (List Nat)}
  {css : List (List Char)}

/-- A character of a text between single quotes. -/
def escapedChar (c : Char) : List Char :=
  if c = '\\' then ['\\', '\\'] else if c = '\'' then ['\\', '\''] else [c]

/-- A text between single quotes, from behind the first of them on. -/
def quotedFrom (cs : List Char) : List Char := cs.flatMap escapedChar ++ ['\'']

/-- Literals with bars between them. -/
def choiceText (css : List (List Char)) : List Char :=
  List.intercalate " | ".toList (css.map fun cs => '\'' :: quotedFrom cs)

/-- Neither a line feed nor a carriage return is in the text. -/
def Unbroken (cs : List Char) : Prop := ∀ c ∈ cs, c ≠ '\n' ∧ c ≠ '\r'

instance (cs : List Char) : Decidable (Unbroken cs) :=
  List.decidableBAll (fun c => c ≠ '\n' ∧ c ≠ '\r') cs

/-- **What is read of a choice**: the values of the literals between the bars, in order. -/
inductive ReadsChoice : List Char → List (List Nat) → Prop where
  | last {cs : List Char} {v : List Nat} (h : Reads .single cs v []) : ReadsChoice ('\'' :: cs) [v]
  | more {cs rest : List Char} {v : List Nat} {vs : List (List Nat)}
    (h : Reads .single cs v (' ' :: '|' :: ' ' :: rest)) (hmore : ReadsChoice rest vs) :
    ReadsChoice ('\'' :: cs) (v :: vs)

theorem toList_stringLiteral (s : String) :
    (stringLiteral s).toList = '\'' :: quotedFrom s.toList := by
  rw [stringLiteral, String.toList_ofList]
  rfl

theorem toList_union (ss : List String) :
    (TypeExpr.union (ss.map .text)).render.toList = choiceText (ss.map String.toList) := by
  rw [TypeExpr.render, String.toList_intercalate, choiceText, List.map_map, List.map_map,
    List.map_map]
  congr 1
  exact List.map_congr_left fun s _ => toList_stringLiteral s

/-! ## One literal -/

/-- A character is read as itself, unless it ends a line. -/
theorem reads_escapedChar : Reads .single (escapedChar c ++ more) v behind ↔
    (c ≠ '\n' ∧ c ≠ '\r') ∧ ∃ w, v = unitsOfPoint c.toNat ++ w ∧ Reads .single more w behind := by
  have hslash : escape? ('\\' :: more) = some (unitsOfPoint '\\'.toNat, more) := rfl
  have hquote : escape? ('\'' :: more) = some (unitsOfPoint '\''.toNat, more) := rfl
  -- behind a backslash stands what it quotes, and nothing else can be read there
  have hescaped : ∀ d, escape? (d :: more) = some (unitsOfPoint d.toNat, more) →
      (Reads .single ('\\' :: d :: more) v behind ↔
        ∃ w, v = unitsOfPoint d.toNat ++ w ∧ Reads .single more w behind) := by
    intro d hd
    constructor
    · intro h
      generalize htext : '\\' :: d :: more = text at h
      cases h with
      | close => exact absurd (List.cons.inj htext).1 (by decide)
      | bare hc => exact absurd (List.cons.inj htext).1.symm hc.2.1
      | escaped he hds =>
        cases htext
        cases he.symm.trans hd
        exact ⟨_, rfl, hds⟩
    · rintro ⟨w, rfl, hw⟩
      exact .escaped hd hw
  rw [escapedChar]
  split_ifs with hc hc'
  · subst hc
    exact (hescaped _ hslash).trans (and_iff_right (by decide)).symm
  · subst hc'
    exact (hescaped _ hquote).trans (and_iff_right (by decide)).symm
  · rw [List.singleton_append]
    constructor
    · intro h
      generalize htext : c :: more = text at h
      cases h with
      | close => exact absurd (List.cons.inj htext).1 hc'
      | bare hbare hopens hcs =>
        cases htext
        obtain ⟨hfeed, hreturn⟩ := hbare.2.2 rfl
        exact ⟨⟨hfeed, hreturn⟩, _, by rw [bareUnits_eq_iff.mpr hreturn], hcs⟩
      | escaped => exact absurd (List.cons.inj htext).1 hc
    · rintro ⟨hends, w, rfl, hw⟩
      rw [← bareUnits_eq_iff.mpr hends.2]
      exact .bare ⟨hc', hc, fun _ => hends⟩ nofun hw

/-- **A literal is read exactly if its text is unbroken**, as the text and up to its last quote. -/
theorem reads_quotedFrom : Reads .single (quotedFrom cs ++ rest) v behind ↔
    Unbroken cs ∧ v = units cs ∧ behind = rest := by
  rw [quotedFrom, List.append_assoc, List.singleton_append]
  induction cs generalizing v with
  | nil =>
    have hclosed : Reads .single ('\'' :: rest) [] rest := .close
    constructor
    · intro h
      obtain ⟨hv, hrest⟩ := h.unique hclosed
      exact ⟨List.forall_mem_nil _, hv, hrest⟩
    · rintro ⟨-, rfl, rfl⟩
      exact hclosed
  | cons c cs ih =>
    rw [List.flatMap_cons, List.append_assoc, reads_escapedChar, Unbroken, List.forall_mem_cons]
    constructor
    · rintro ⟨hc, w, rfl, hw⟩
      obtain ⟨hcs, rfl, hrest⟩ := ih.mp hw
      exact ⟨⟨hc, hcs⟩, rfl, hrest⟩
    · rintro ⟨⟨hc, hcs⟩, rfl, hrest⟩
      exact ⟨hc, _, rfl, ih.mpr ⟨hcs, rfl, hrest⟩⟩

/-- What ends a line in a literal is what does in its text. -/
theorem exists_isLineEnd_quotedFrom :
    (∃ c ∈ quotedFrom cs, isLineEnd c = true) ↔ ∃ c ∈ cs, isLineEnd c = true := by
  have hchar : ∀ c, (∃ d ∈ escapedChar c, isLineEnd d = true) ↔ isLineEnd c = true := by
    intro c
    have hmarks : isLineEnd '\\' = false ∧ isLineEnd '\'' = false := by decide
    rw [escapedChar]
    split_ifs with hc hc' <;> simp_all
  constructor
  · rintro ⟨d, hd, hend⟩
    rw [quotedFrom, List.mem_append, List.mem_singleton] at hd
    rcases hd with hd | rfl
    · obtain ⟨c, hc, hd⟩ := List.mem_flatMap.mp hd
      exact ⟨c, hc, (hchar c).mp ⟨d, hd, hend⟩⟩
    · exact absurd hend (by decide)
  · rintro ⟨c, hc, hend⟩
    obtain ⟨d, hd, hend⟩ := (hchar c).mpr hend
    exact ⟨d, List.mem_append_left _ (List.mem_flatMap.mpr ⟨c, hc, hd⟩), hend⟩

/-! ## Literals in a row -/

/-- **A choice is read exactly if all of its texts are unbroken**, as the texts in order. -/
theorem readsChoice_iff (hne : css ≠ []) : ReadsChoice (choiceText css) vs ↔
    (∀ cs ∈ css, Unbroken cs) ∧ vs = css.map units := by
  induction css generalizing vs with
  | nil => exact absurd rfl hne
  | cons cs css ih =>
    rw [List.forall_mem_cons, List.map_cons, choiceText, List.map_cons]
    cases css with
    | nil =>
      rw [List.map_nil, List.intercalate_singleton, List.map_nil,
        and_iff_left (List.forall_mem_nil _)]
      have hread : ∀ {v behind}, Reads .single (quotedFrom cs) v behind ↔
          Unbroken cs ∧ v = units cs ∧ behind = [] := by
        intro v behind
        rw [← reads_quotedFrom, List.append_nil]
      constructor
      · intro h
        cases h with
        | last h =>
          obtain ⟨hcs, rfl, -⟩ := hread.mp h
          exact ⟨hcs, rfl⟩
        | more h => cases (hread.mp h).2.2
      · rintro ⟨hcs, rfl⟩
        exact .last (hread.mpr ⟨hcs, rfl, rfl⟩)
    | cons next css =>
      have htext : List.intercalate " | ".toList
          (('\'' :: quotedFrom cs) :: (next :: css).map fun cs => '\'' :: quotedFrom cs) =
          '\'' :: (quotedFrom cs ++ ' ' :: '|' :: ' ' :: choiceText (next :: css)) := by
        rw [List.map_cons, List.intercalate_cons_cons, List.append_assoc]
        rfl
      rw [htext]
      constructor
      · intro h
        cases h with
        | last h => cases (reads_quotedFrom.mp h).2.2
        | more h hmore =>
          obtain ⟨hcs, rfl, hbehind⟩ := reads_quotedFrom.mp h
          cases hbehind
          obtain ⟨hcss, rfl⟩ := (ih (List.cons_ne_nil _ _)).mp hmore
          exact ⟨⟨hcs, hcss⟩, rfl⟩
      · rintro ⟨⟨hcs, hcss⟩, rfl⟩
        exact .more (reads_quotedFrom.mpr ⟨hcs, rfl, rfl⟩)
          ((ih (List.cons_ne_nil _ _)).mpr ⟨hcss, rfl⟩)

/-! ## Characters -/

/-- Escaping a text and keeping it are one after the other in any order. -/
theorem ofChars_quotedFrom (cs : List Char) :
    ofChars (quotedFrom cs) = quotedFrom (ofChars cs) := by
  have hpoint : ∀ c : Char, ofChars (escapedChar c) = (ofPoint c.toNat).flatMap escapedChar := by
    intro c
    by_cases hc : c = '\\' ∨ c = '\''
    · rcases hc with rfl | rfl <;> decide
    · rw [not_or] at hc
      have hsame : escapedChar c = [c] := by rw [escapedChar, if_neg hc.1, if_neg hc.2]
      have hmark : escapedChar Text.literalMark = [Text.literalMark] := by decide
      have hhalf : Text.isHalf c.toNat = false := Text.not_isHalf_iff.mpr (Text.not_half c)
      rw [hsame, ofChars, List.flatMap_singleton, ofPoint, hhalf, if_neg Bool.false_ne_true,
        Char.ofNat_toNat]
      split
      · rw [List.flatMap_cons, hmark, List.flatMap_singleton, hsame]
        rfl
      · rw [List.flatMap_singleton, hsame]
  have hquote : ofChars ['\''] = ['\''] := by decide
  rw [quotedFrom, ofChars_append, hquote, quotedFrom, ofChars, ofChars, List.flatMap_assoc,
    List.flatMap_assoc]
  exact congrArg (· ++ ['\'']) (List.flatMap_congr fun c _ => hpoint c)

theorem ofChars_choiceText (css : List (List Char)) :
    ofChars (choiceText css) = choiceText (css.map ofChars) := by
  have hquote : ofChars ['\''] = ['\''] := by decide
  have hbar : ofChars " | ".toList = " | ".toList := by decide
  have hliteral : ∀ cs, ofChars ('\'' :: quotedFrom cs) = '\'' :: quotedFrom (ofChars cs) := by
    intro cs
    rw [← List.singleton_append, ofChars_append, hquote, ofChars_quotedFrom, List.singleton_append]
  have hparts := @Sequence.flatMap_intercalate _ (fun c : Char => ofPoint c.toNat) " | ".toList
    (css.map fun cs => '\'' :: quotedFrom cs)
  rw [choiceText, ofChars, hparts, choiceText, List.map_map, List.map_map]
  exact congrArg₂ _ hbar (List.map_congr_left fun cs _ => hliteral cs)

/-! ## All of them -/

/-- **Choices between texts.** An enumeration of texts resolves, from any pass, to the choice
between literals of them. A literal is read, whatever follows, exactly if its text has no line
feed and no carriage return; it is read as its text and up to its last quote, and it has an end
of a line in it exactly if its text has. The whole choice is read exactly if that is so for all
texts, as the texts in their order; and so are its characters, where the texts have no halves. -/
theorem enum_texts_listed {ss : List String} (hne : ss ≠ []) :
    (∀ defs seen declared format description p,
      (resolve defs seen (.enumeration declared format description
        (ss.map fun s => .scalar (.str s)))).result p = (.ok (.plain (.union (ss.map .text))), p)) ∧
    (∀ s ∈ ss, ∃ inner, (Literal.text s).render.toList = '\'' :: inner ∧
      (∀ rest v behind, Reads .single (inner ++ rest) v behind ↔
        Unbroken s.toList ∧ v = units s.toList ∧ behind = rest) ∧
      ((∃ c ∈ inner, isLineEnd c = true) ↔ ∃ c ∈ s.toList, isLineEnd c = true)) ∧
    (∀ vs, ReadsChoice (TypeExpr.union (ss.map .text)).render.toList vs ↔
      (∀ s ∈ ss, Unbroken s.toList) ∧ vs = ss.map fun s => units s.toList) ∧
    ∀ css : List (List Char), ss = css.map (fun cs => String.ofList (ofChars cs)) →
      ∃ text, (TypeExpr.union (ss.map .text)).render = String.ofList (ofChars text) ∧
        ∀ vs, ReadsChoice text vs ↔ (∀ cs ∈ css, Unbroken cs) ∧ vs = css.map units := by
  refine ⟨fun defs seen declared format description p => ?_, fun s _ => ?_, fun vs => ?_, ?_⟩
  · have hvalues : (ss.map fun s => Data.scalar (.str s)).mapM Literal.ofData =
        .ok (ss.map .text) := by
      clear hne
      induction ss with
      | nil => rfl
      | cons s ss ih =>
        rw [List.map_cons, List.mapM_cons, ih]
        rfl
    obtain ⟨s, rest, rfl⟩ := List.exists_cons_of_ne_nil hne
    rw [resolve]
    · rw [Resolving.mapM_lift, hvalues]
      rfl
    · exact List.cons_ne_nil _ _
  · exact ⟨quotedFrom s.toList, toList_stringLiteral s, fun rest v behind => reads_quotedFrom,
      exists_isLineEnd_quotedFrom⟩
  · have hsome : ss.map String.toList ≠ [] := by simpa using hne
    rw [toList_union, readsChoice_iff hsome, List.forall_mem_map, List.map_map]
    rfl
  · rintro css rfl
    have hsome : css ≠ [] := by simpa using hne
    refine ⟨choiceText css, ?_, fun vs => readsChoice_iff hsome⟩
    rw [← String.toList_inj, toList_union, String.toList_ofList, ofChars_choiceText, List.map_map]
    exact congrArg choiceText (List.map_congr_left fun cs _ => String.toList_ofList)

/-- Quotes, backslashes and what looks like the end of a literal are read as they are. -/
theorem odd_choices_listed : ∃ text,
    (TypeExpr.union [.text "it's", .text "a\\' | 'b", .text "\u2028"]).render =
      String.ofList (ofChars text) ∧
    ReadsChoice text
      [units "it's".toList, units "a\\' | 'b".toList, units "\u2028".toList] ∧
    ¬ ReadsChoice text [units "it's".toList, units "a\\".toList, units "b".toList] := by
  have hne : ["it's", "a\\' | 'b", "\u2028"] ≠ [] := List.cons_ne_nil _ _
  obtain ⟨-, -, -, hchars⟩ := enum_texts_listed hne
  obtain ⟨text, htext, hread⟩ := hchars
    ["it's".toList, "a\\' | 'b".toList, "\u2028".toList] (by decide)
  refine ⟨text, htext, (hread _).mpr ⟨by decide, rfl⟩, fun h => ?_⟩
  exact absurd ((hread _).mp h).2 (by decide)

/-- Not every choice can be read: a line feed in a text stays in its literal. -/
theorem broken_choice : ¬ ∀ ss : List String, ss ≠ [] →
    ∃ vs, ReadsChoice (TypeExpr.union (ss.map .text)).render.toList vs := by
  intro hall
  obtain ⟨vs, h⟩ := hall ["a\nb", "c"] (List.cons_ne_nil _ _)
  have hsome : ["a\nb", "c"].map String.toList ≠ [] := List.cons_ne_nil _ _
  rw [toList_union, readsChoice_iff hsome] at h
  exact absurd h.1 (by decide)

end TypeScript

end ApiMock
