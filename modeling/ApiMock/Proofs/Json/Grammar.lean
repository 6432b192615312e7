import Mathlib.Data.List.TakeWhile
import ApiMock.Proofs.Json.Spelling
/-!
# JSON — the grammar of a text

How a value can be written, rule by rule. What the rules leave open is a
`Style`: which blanks may stand between tokens, how words, numbers and texts
are written, and what may stand between a key and its colon. A style is legal
if what it allows is what a reader takes it for; a value that is written in a
legal style is read (`Style.Legal.parse`).
-/

namespace ApiMock

namespace Json

/-- A part of a text: a value, an entry of an object, or the elements or entries of a
collection with the bracket behind them. -/
inductive Phrase where
  | value (j : Json)
  | items (js : List Json)
  | entry (key : String) (j : Json)
  | entries (es : List (String × Json))

/-- What the rules leave open. -/
structure Style where
  /-- What may stand between two tokens. -/
  blank : Char → Prop
  /-- How a value without brackets is written, if not in quotes. -/
  bare : Json → List Char → Prop
  /-- How a text is written, its quotes included. -/
  quoted : String → List Char → Prop
  /-- What may stand between a key, as it is written, and its colon. -/
  colonGap : List Char → List Char → Prop

namespace Style

variable {σ : Style}

/-- Blanks of a style. -/
def Gap (σ : Style) (cs : List Char) : Prop :=
  ∀ c ∈ cs, σ.blank c

/-- **The text writes the phrase**, by the rules of the grammar. -/
inductive Writes (σ : Style) : Phrase → List Char → Prop where
  | bare {j : Json} {cs : List Char} (h : σ.bare j cs) : Writes σ (.value j) cs
  | quoted {s : String} {cs : List Char} (h : σ.quoted s cs) : Writes σ (.value (.str s)) cs
  | emptyArray {lead : List Char} (hlead : σ.Gap lead) :
      Writes σ (.value (.arr [])) ('[' :: (lead ++ [']']))
  | array {js : List Json} {lead cs : List Char} (hlead : σ.Gap lead)
      (h : Writes σ (.items js) cs) : Writes σ (.value (.arr js)) ('[' :: (lead ++ cs))
  | lastItem {j : Json} {cs trail : List Char} (h : Writes σ (.value j) cs)
      (htrail : σ.Gap trail) : Writes σ (.items [j]) (cs ++ (trail ++ [']']))
  | item {j : Json} {js : List Json} {cs trail lead more : List Char}
      (h : Writes σ (.value j) cs) (htrail : σ.Gap trail) (hlead : σ.Gap lead)
      (hmore : Writes σ (.items js) more) :
      Writes σ (.items (j :: js)) (cs ++ (trail ++ ',' :: (lead ++ more)))
  | emptyObject {lead : List Char} (hlead : σ.Gap lead) :
      Writes σ (.value (.obj [])) ('\x7b' :: (lead ++ ['\x7d']))
  | object {es : List (String × Json)} {lead cs : List Char} (hlead : σ.Gap lead)
      (h : Writes σ (.entries es) cs) : Writes σ (.value (.obj es)) ('\x7b' :: (lead ++ cs))
  | entry {name : String} {j : Json} {key gap lead cs : List Char} (hkey : σ.quoted name key)
      (hgap : σ.colonGap key gap) (hlead : σ.Gap lead) (h : Writes σ (.value j) cs) :
      Writes σ (.entry name j) (key ++ (gap ++ ':' :: (lead ++ cs)))
  | lastEntry {name : String} {j : Json} {cs trail : List Char} (h : Writes σ (.entry name j) cs)
      (htrail : σ.Gap trail) : Writes σ (.entries [(name, j)]) (cs ++ (trail ++ ['\x7d']))
  | moreEntries {name : String} {j : Json} {es : List (String × Json)}
      {cs trail lead more : List Char} (h : Writes σ (.entry name j) cs) (htrail : σ.Gap trail)
      (hlead : σ.Gap lead) (hmore : Writes σ (.entries es) more) :
      Writes σ (.entries ((name, j) :: es)) (cs ++ (trail ++ ',' :: (lead ++ more)))

/-- **The whole text writes the value**, with blanks around it. -/
def Renders (σ : Style) (j : Json) (text : List Char) : Prop :=
  ∃ lead cs trail, σ.Gap lead ∧ σ.Writes (.value j) cs ∧ σ.Gap trail ∧
    text = lead ++ (cs ++ trail)

/-- A text that a style allows is taken for what it writes. -/
structure Legal (σ : Style) : Prop where
  blank : ∀ {c}, σ.blank c → isSpace c = true
  bare : ∀ {j cs}, σ.bare j cs → Spells j cs
  quoted : ∀ {s cs}, σ.quoted s cs → ∃ text, cs = '"' :: text ∧
    ∀ rest, forget (readText (text ++ rest)) = some (s.toList, rest)
  colonGap : ∀ {key gap}, σ.colonGap key gap → Blank gap

theorem Legal.gap (h : σ.Legal) {cs : List Char} (hcs : σ.Gap cs) : Blank cs :=
  fun c hc => h.blank (hcs c hc)

end Style

/-! ## What is written is read -/

/-- The text is read as the phrase, and no further. -/
def Phrase.Spelled : Phrase → List Char → Prop
  | .value j, cs => Spells j cs
  | .items js, cs => (∃ c tail, cs = c :: tail ∧ isSpace c = false ∧ c ≠ ']') ∧
      ∀ rest, forget (readItems (cs ++ rest)) = some (js, rest)
  | .entry name j, cs => ∃ text, cs = '"' :: text ∧ ∀ rest, Closed rest → ∃ behind value,
      forget (readText (text ++ rest)) = some (name.toList, behind) ∧
      skipSpace behind = ':' :: value ∧ forget (readValue (skipSpace value)) = some (j, rest)
  | .entries es, cs => (∃ text, cs = '"' :: text) ∧
      ∀ rest, forget (readEntries (cs ++ rest)) = some (es, rest)

/-- A text in quotes is read as the text. -/
theorem spells_quoted {s : String} {text : List Char}
    (h : ∀ rest, forget (readText (text ++ rest)) = some (s.toList, rest)) :
    Spells (.str s) ('"' :: text) where
  starts := ⟨'"', text, rfl, by decide⟩
  reads rest _ := by
    obtain ⟨hlt, hread⟩ := forget_eq_some (h rest)
    rw [List.cons_append, readValue, hread]
    simp only [String.ofList_toList]
    rfl

namespace Style

variable {σ : Style} {p : Phrase} {cs lead trail more key gap : List Char} {j : Json}
  {js : List Json} {name : String} {es : List (String × Json)}

theorem Legal.spelled_emptyArray (hσ : σ.Legal) (hlead : σ.Gap lead) :
    (Phrase.value (.arr [])).Spelled ('[' :: (lead ++ [']'])) := by
  refine ⟨⟨'[', _, rfl, by decide⟩, fun rest _ => ?_⟩
  have hskip : skipSpace (lead ++ ']' :: rest) = ']' :: rest :=
    skipSpace_blank (hσ.gap hlead) (by decide)
  rw [List.cons_append, List.append_assoc]
  exact readValue_empty_array hskip

theorem Legal.spelled_array (hσ : σ.Legal) (hlead : σ.Gap lead)
    (h : (Phrase.items js).Spelled cs) :
    (Phrase.value (.arr js)).Spelled ('[' :: (lead ++ cs)) := by
  obtain ⟨⟨c, tail, rfl, hc, hbracket⟩, hread⟩ := h
  refine ⟨⟨'[', _, rfl, by decide⟩, fun rest _ => ?_⟩
  have hskip : skipSpace (lead ++ (c :: tail ++ rest)) = c :: tail ++ rest :=
    skipSpace_blank (hσ.gap hlead) hc
  rw [List.cons_append, List.append_assoc]
  refine readValue_array ?_ ?_
  · rw [hskip]
    simpa using hbracket
  · rw [hskip]
    exact hread rest

theorem Legal.spelled_lastItem (hσ : σ.Legal) (h : (Phrase.value j).Spelled cs)
    (htrail : σ.Gap trail) :
    (Phrase.items [j]).Spelled (cs ++ (trail ++ [']'])) := by
  obtain ⟨⟨c, tail, rfl, hc, hbracket, -⟩, hread⟩ := h
  refine ⟨⟨c, _, rfl, hc, hbracket⟩, fun rest => ?_⟩
  have hvalue := hread (trail ++ ']' :: rest) (closed_blank (hσ.gap htrail) (by simp))
  rw [List.append_assoc, List.append_assoc]
  exact readItems_last hvalue (skipSpace_blank (hσ.gap htrail) (by decide))

theorem Legal.spelled_item (hσ : σ.Legal) (h : (Phrase.value j).Spelled cs)
    (htrail : σ.Gap trail) (hlead : σ.Gap lead) (hothers : (Phrase.items js).Spelled more) :
    (Phrase.items (j :: js)).Spelled (cs ++ (trail ++ ',' :: (lead ++ more))) := by
  obtain ⟨⟨c, tail, rfl, hc, hbracket, -⟩, hread⟩ := h
  obtain ⟨⟨d, behind, rfl, hd, -⟩, hmore⟩ := hothers
  refine ⟨⟨c, _, rfl, hc, hbracket⟩, fun rest => ?_⟩
  have hvalue := hread (trail ++ ',' :: (lead ++ (d :: behind ++ rest)))
    (closed_blank (hσ.gap htrail) (by simp))
  have htext : c :: tail ++ (trail ++ ',' :: (lead ++ d :: behind)) ++ rest =
      c :: tail ++ (trail ++ ',' :: (lead ++ (d :: behind ++ rest))) := by
    simp only [List.append_assoc, List.cons_append]
  rw [htext]
  refine readItems_more hvalue (skipSpace_blank (hσ.gap htrail) (by decide)) ?_
  rw [List.cons_append, skipSpace_blank (hσ.gap hlead) hd]
  exact hmore rest

theorem Legal.spelled_emptyObject (hσ : σ.Legal) (hlead : σ.Gap lead) :
    (Phrase.value (.obj [])).Spelled ('\x7b' :: (lead ++ ['\x7d'])) := by
  refine ⟨⟨'\x7b', _, rfl, by decide⟩, fun rest _ => ?_⟩
  have hskip : skipSpace (lead ++ '\x7d' :: rest) = '\x7d' :: rest :=
    skipSpace_blank (hσ.gap hlead) (by decide)
  rw [List.cons_append, List.append_assoc]
  exact readValue_empty_object hskip

theorem Legal.spelled_object (hσ : σ.Legal) (hlead : σ.Gap lead)
    (h : (Phrase.entries es).Spelled cs) :
    (Phrase.value (.obj es)).Spelled ('\x7b' :: (lead ++ cs)) := by
  obtain ⟨⟨text, rfl⟩, hread⟩ := h
  refine ⟨⟨'\x7b', _, rfl, by decide⟩, fun rest _ => ?_⟩
  have hskip : skipSpace (lead ++ ('"' :: text ++ rest)) = '"' :: text ++ rest :=
    skipSpace_blank (hσ.gap hlead) (by decide)
  rw [List.cons_append, List.append_assoc]
  refine readValue_object ?_ ?_
  · rw [hskip]
    simp
  · rw [hskip]
    exact hread rest

theorem Legal.spelled_entry (hσ : σ.Legal) (hkey : σ.quoted name key)
    (hgap : σ.colonGap key gap) (hlead : σ.Gap lead) (h : (Phrase.value j).Spelled cs) :
    (Phrase.entry name j).Spelled (key ++ (gap ++ ':' :: (lead ++ cs))) := by
  obtain ⟨text, rfl, hread⟩ := hσ.quoted hkey
  obtain ⟨⟨c, tail, rfl, hc, -⟩, hvalue⟩ := h
  refine ⟨text ++ (gap ++ ':' :: (lead ++ c :: tail)), rfl, fun rest hrest => ?_⟩
  refine ⟨gap ++ ':' :: (lead ++ (c :: tail ++ rest)), lead ++ (c :: tail ++ rest), ?_,
    skipSpace_blank (hσ.colonGap hgap) (by decide), ?_⟩
  · have htext : text ++ (gap ++ ':' :: (lead ++ c :: tail)) ++ rest =
        text ++ (gap ++ ':' :: (lead ++ (c :: tail ++ rest))) := by
      simp only [List.append_assoc, List.cons_append]
    rw [htext]
    exact hread (gap ++ ':' :: (lead ++ (c :: tail ++ rest)))
  · rw [List.cons_append, skipSpace_blank (hσ.gap hlead) hc]
    exact hvalue rest hrest

theorem Legal.spelled_lastEntry (hσ : σ.Legal) (h : (Phrase.entry name j).Spelled cs)
    (htrail : σ.Gap trail) :
    (Phrase.entries [(name, j)]).Spelled (cs ++ (trail ++ ['\x7d'])) := by
  obtain ⟨text, rfl, hread⟩ := h
  refine ⟨⟨_, rfl⟩, fun rest => ?_⟩
  obtain ⟨behind, value, hkey, hcolon, hvalue⟩ :=
    hread (trail ++ '\x7d' :: rest) (closed_blank (hσ.gap htrail) (by simp))
  have hentry := readEntries_last hkey hcolon hvalue
    (skipSpace_blank (hσ.gap htrail) (by decide))
  have htext : '"' :: text ++ (trail ++ ['\x7d']) ++ rest =
      '"' :: (text ++ (trail ++ '\x7d' :: rest)) := by
    simp only [List.append_assoc, List.cons_append, List.nil_append]
  rw [String.ofList_toList] at hentry
  rw [htext]
  exact hentry

theorem Legal.spelled_moreEntries (hσ : σ.Legal) (h : (Phrase.entry name j).Spelled cs)
    (htrail : σ.Gap trail) (hlead : σ.Gap lead) (hothers : (Phrase.entries es).Spelled more) :
    (Phrase.entries ((name, j) :: es)).Spelled (cs ++ (trail ++ ',' :: (lead ++ more))) := by
  obtain ⟨text, rfl, hread⟩ := h
  obtain ⟨⟨others, rfl⟩, hmore⟩ := hothers
  refine ⟨⟨_, rfl⟩, fun rest => ?_⟩
  obtain ⟨behind, value, hkey, hcolon, hvalue⟩ :=
    hread (trail ++ ',' :: (lead ++ ('"' :: others ++ rest)))
      (closed_blank (hσ.gap htrail) (by simp))
  have hskip : skipSpace (lead ++ ('"' :: others ++ rest)) = '"' :: others ++ rest :=
    skipSpace_blank (hσ.gap hlead) (by decide)
  have hentry := readEntries_more hkey hcolon hvalue
    (skipSpace_blank (hσ.gap htrail) (by decide)) (hskip ▸ hmore rest)
  have htext : '"' :: text ++ (trail ++ ',' :: (lead ++ '"' :: others)) ++ rest =
      '"' :: (text ++ (trail ++ ',' :: (lead ++ ('"' :: others ++ rest)))) := by
    simp only [List.append_assoc, List.cons_append]
  rw [String.ofList_toList] at hentry
  rw [htext]
  exact hentry

/-- **What is written in a legal style is read.** -/
theorem Legal.spelled (hσ : σ.Legal) (h : σ.Writes p cs) : p.Spelled cs := by
  induction h with
  | bare h => exact hσ.bare h
  | quoted h =>
    obtain ⟨text, rfl, hread⟩ := hσ.quoted h
    exact spells_quoted hread
  | emptyArray hlead => exact hσ.spelled_emptyArray hlead
  | array hlead _ ih => exact hσ.spelled_array hlead ih
  | lastItem _ htrail ih => exact hσ.spelled_lastItem ih htrail
  | item _ htrail hlead _ ih ihmore => exact hσ.spelled_item ih htrail hlead ihmore
  | emptyObject hlead => exact hσ.spelled_emptyObject hlead
  | object hlead _ ih => exact hσ.spelled_object hlead ih
  | entry hkey hgap hlead _ ih => exact hσ.spelled_entry hkey hgap hlead ih
  | lastEntry _ htrail ih => exact hσ.spelled_lastEntry ih htrail
  | moreEntries _ htrail hlead _ ih ihmore => exact hσ.spelled_moreEntries ih htrail hlead ihmore

/-- Nothing that is written starts with a blank. -/
theorem Legal.head (hσ : σ.Legal) (h : σ.Writes p cs) :
    ∃ c tail, cs = c :: tail ∧ isSpace c = false := by
  have hspelled := hσ.spelled h
  cases p with
  | value j =>
    obtain ⟨⟨c, tail, htext, hc, -⟩, -⟩ := hspelled
    exact ⟨c, tail, htext, hc⟩
  | items js =>
    obtain ⟨⟨c, tail, htext, hc, -⟩, -⟩ := hspelled
    exact ⟨c, tail, htext, hc⟩
  | entry name j =>
    obtain ⟨text, htext, -⟩ := hspelled
    exact ⟨'"', text, htext, by decide⟩
  | entries es =>
    obtain ⟨⟨text, htext⟩, -⟩ := hspelled
    exact ⟨'"', text, htext, by decide⟩

/-- Blanks are read as no more of a number. -/
theorem closed_of_blank {gap : List Char} (h : Blank gap) : Closed gap := by
  have hblanks : ∀ d ∈ [' ', '\t', '\n', '\r'],
      d.isDigit = false ∧ d ≠ '.' ∧ d ≠ 'e' ∧ d ≠ 'E' := by decide
  intro c hc
  have hspace : isSpace c = true := h c (List.mem_of_mem_head? hc)
  exact hblanks c (by simpa [isSpace, or_assoc] using hspace)

/-- **A text in a legal style is parsed as the value that it writes.** -/
theorem Legal.parse (hσ : σ.Legal) {j : Json} {text : List Char} (h : σ.Renders j text) :
    Json.parse text = some j := by
  obtain ⟨lead, cs, trail, hlead, hcs, htrail, rfl⟩ := h
  obtain ⟨⟨c, tail, rfl, hc, -⟩, hread⟩ := hσ.spelled hcs
  have hskip : skipSpace (lead ++ (c :: tail ++ trail)) = c :: tail ++ trail :=
    skipSpace_blank (hσ.gap hlead) hc
  have hend : skipSpace trail = [] := by
    rw [skipSpace, List.dropWhile_eq_nil_iff]
    exact hσ.gap htrail
  refine parse_of_readValue ?_ hend
  rw [hskip]
  exact hread trail (closed_of_blank (hσ.gap htrail))

end Style

end Json

end ApiMock
