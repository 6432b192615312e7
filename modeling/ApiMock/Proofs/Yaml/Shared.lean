import ApiMock.Number.Reading
import ApiMock.Proofs.Json.Grammar
import ApiMock.Yaml.Value
/-!
# Yaml — the notation shared with JSON

Most JSON texts are YAML texts with the same value. `Json.Style.shared` is the
part of the JSON grammar of which that holds. It is all of the grammar but for

* tabs between tokens, and a line break or more than 1024 characters in front
  of the colon of a key;
* numbers with an exponent that has no sign, or that no fraction precedes, and
  whole numbers of more digits than are read at once;
* characters that YAML does not allow or takes for line breaks where they stand
  in a text as they are, and escapes for the halves of a character.

The style is legal, so what is written in it is parsed as JSON
(`shared_legal`). What is kept of such a text when it is read from a file is
written by the same rules (`Style.Writes.kept`).
-/

namespace ApiMock

namespace Json

open Text (isHalf ofPoint ofChars ofChars_append withLineFeeds)

/-! ## Numbers and words -/

/-- A row of digits. -/
def Digits (cs : List Char) : Prop :=
  Text.IsRun Char.isDigit cs

/-- The sign of a number. -/
def signText (negative : Bool) : List Char :=
  if negative then ['-'] else []

/-- What stands behind a fraction: nothing, or an exponent with its sign. -/
inductive Exponent : List Char → Int → Prop where
  | none : Exponent [] 0
  | positive {e : Char} {ds : List Char} (he : e = 'e' ∨ e = 'E') (hds : Digits ds) :
      Exponent (e :: '+' :: ds) (natOf ds)
  | negative {e : Char} {ds : List Char} (he : e = 'e' ∨ e = 'E') (hds : Digits ds) :
      Exponent (e :: '-' :: ds) (-natOf ds)

/-- Values without quotes or brackets, and the texts that write them. -/
inductive Bare : Json → List Char → Prop where
  | null : Bare .null "null".toList
  | bool (b : Bool) : Bare (.bool b) (if b then "true" else "false").toList
  | whole {negative : Bool} {ds : List Char} (hds : Digits ds) (hpart : isWholePart ds = true)
      (hmost : ds.length ≤ Number.mostDigits) :
      Bare (.int (Number.withSign negative (natOf ds))) (signText negative ++ ds)
  | real {negative : Bool} {whole fraction exponent : List Char} {scale : Int}
      (hwhole : Digits whole) (hpart : isWholePart whole = true) (hfraction : Digits fraction)
      (hexponent : Exponent exponent scale) :
      Bare (.float (Binary64.ofDecimal negative (natOf (whole ++ fraction))
          (scale - fraction.length)))
        (signText negative ++ (whole ++ '.' :: (fraction ++ exponent)))

variable {rest : List Char}

/-- Digits are split off from what starts with none. -/
theorem digits_append {ds : List Char} (hds : Digits ds)
    (hrest : rest.head?.any Char.isDigit = false) : digits (ds ++ rest) = (ds, rest) := by
  obtain ⟨hword, hbehind⟩ := Text.takeWhile_word hds.2 hrest
  rw [digits, List.span_eq_takeWhile_dropWhile, hword, hbehind]

/-- An exponent starts with no digit. -/
theorem Exponent.head {cs : List Char} {scale : Int} (h : Exponent cs scale)
    (hrest : Closed rest) : (cs ++ rest).head?.any Char.isDigit = false := by
  cases h with
  | none =>
    cases rest with
    | nil => rfl
    | cons c cs => exact (hrest c rfl).1
  | positive he => rcases he with rfl | rfl <;> rfl
  | negative he => rcases he with rfl | rfl <;> rfl

/-- An exponent is split off, and counts for what it writes. -/
theorem Exponent.split {cs : List Char} {scale : Int} (h : Exponent cs scale)
    (hrest : Closed rest) {negative : Bool} {whole fraction : List Char}
    (hpart : isWholePart whole = true) (hfraction : Digits fraction) :
    ∃ exponent, exponentPart (cs ++ rest) = (exponent, rest) ∧
      numberOf? negative whole (some fraction) exponent =
        some (.float (Binary64.ofDecimal negative (natOf (whole ++ fraction))
          (scale - fraction.length))) := by
  have hstop : rest.head?.any Char.isDigit = false := by
    cases rest with
    | nil => rfl
    | cons c cs => exact (hrest c rfl).1
  have hsome : fraction.isEmpty = false := List.isEmpty_eq_false_iff.mpr hfraction.1
  cases h with
  | none =>
    refine ⟨Option.none, exponentPart_closed hrest, ?_⟩
    simp [numberOf?, hpart, hsome]
  | @positive e ds he hds =>
    refine ⟨some ('+' :: ds), ?_, ?_⟩
    · rw [List.cons_append, List.cons_append, exponentPart]
      rcases he with rfl | rfl <;> simp [digits_append hds hstop]
    · simp [numberOf?, hpart, hsome, hds.1]
  | @negative e ds he hds =>
    refine ⟨some ('-' :: ds), ?_, ?_⟩
    · rw [List.cons_append, List.cons_append, exponentPart]
      rcases he with rfl | rfl <;> simp [digits_append hds hstop]
    · simp [numberOf?, hpart, hsome, hds.1]

/-- A number is read from its parts. -/
theorem readNumber_parts {text tail behind : List Char} {negative : Bool} {whole : List Char}
    {fraction exponent : Option (List Char)} {j : Json}
    (hsign : splitSign text = (negative, whole ++ tail))
    (hwhole : digits (whole ++ tail) = (whole, tail))
    (hfraction : fractionPart tail = (fraction, behind))
    (hexponent : exponentPart behind = (exponent, rest))
    (hj : numberOf? negative whole fraction exponent = some j) :
    readNumber text = some (j, rest) := by
  have hsteps : readNumber text =
      (numberOf? (splitSign text).1 (digits (splitSign text).2).1
        (fractionPart (digits (splitSign text).2).2).1
        (exponentPart (fractionPart (digits (splitSign text).2).2).2).1).map
          (·, (exponentPart (fractionPart (digits (splitSign text).2).2).2).2) := rfl
  rw [hsteps, hsign]
  simp only [hwhole, hfraction, hexponent, hj]
  rfl

/-- The sign of a number is split off. -/
theorem splitSign_signText {negative : Bool} {ds : List Char} (hds : Digits ds) :
    splitSign (signText negative ++ (ds ++ rest)) = (negative, ds ++ rest) := by
  obtain ⟨c, cs, rfl⟩ := List.exists_cons_of_ne_nil hds.1
  have hc : c.isDigit = true := hds.2 c List.mem_cons_self
  cases negative with
  | true => rfl
  | false =>
    rw [signText, if_neg Bool.false_ne_true, List.nil_append, List.cons_append, splitSign]
    rintro tail heq
    rw [(List.cons.inj heq).1] at hc
    cases hc

/-- A number starts with a digit or a minus sign. -/
theorem head_number {negative : Bool} {ds : List Char} (hds : Digits ds) (tail : List Char) :
    ∃ c cs, signText negative ++ (ds ++ tail) = c :: cs ∧ (c.isDigit = true ∨ c = '-') := by
  obtain ⟨d, cs, rfl⟩ := List.exists_cons_of_ne_nil hds.1
  cases negative with
  | true => exact ⟨'-', _, rfl, .inr rfl⟩
  | false => exact ⟨d, _, rfl, .inl (hds.2 d List.mem_cons_self)⟩

/-- A number spells what it is read as. -/
theorem spells_number {j : Json} {negative : Bool} {ds tail : List Char} (hds : Digits ds)
    (h : ∀ rest, Closed rest → readNumber (signText negative ++ (ds ++ (tail ++ rest))) =
      some (j, rest)) : Spells j (signText negative ++ (ds ++ tail)) := by
  obtain ⟨c, cs, hcs, hnumber⟩ := @head_number negative ds hds tail
  obtain ⟨hspace, hfree, -⟩ := free_of_number hnumber
  refine spells_word (by rw [hcs, List.head?_cons]) ⟨hspace, hfree⟩ fun rest hrest => ?_
  have hread := h rest hrest
  rw [← List.append_assoc ds, ← List.append_assoc] at hread
  rw [hcs, List.cons_append] at hread ⊢
  rw [readWord_number hnumber, hread]

/-- **What stands without quotes is read as its value.** -/
theorem Bare.spells {j : Json} {cs : List Char} (h : Bare j cs) : Spells j cs := by
  cases h with
  | null => exact spells_null
  | bool b => exact spells_bool b
  | @whole negative ds hds hpart _ =>
    have hspells : Spells (.int (Number.withSign negative (natOf ds)))
        (signText negative ++ (ds ++ [])) := by
      refine spells_number hds fun rest hrest => ?_
      have hstop : rest.head?.any Char.isDigit = false := by
        cases rest with
        | nil => rfl
        | cons c cs => exact (hrest c rfl).1
      refine readNumber_parts (splitSign_signText hds) (digits_append hds hstop)
        (fractionPart_closed hrest) (exponentPart_closed hrest) ?_
      simp [numberOf?, hpart, Number.withSign]
    rwa [List.append_nil] at hspells
  | @real negative whole fraction exponent scale hwhole hpart hfraction hexponent =>
    refine spells_number hwhole fun rest hrest => ?_
    obtain ⟨parts, hsplit, hj⟩ := hexponent.split hrest hpart hfraction
    refine readNumber_parts (splitSign_signText hwhole) (digits_append hwhole rfl) ?_ hsplit hj
    rw [List.cons_append, List.append_assoc, fractionPart,
      digits_append hfraction (hexponent.head hrest)]

/-! ## Texts -/

/-- The ways of writing a code point that is no half of a character. -/
inductive Piece : Nat → List Char → Prop where
  | plain {c : Char} (hcontrol : 0x20 ≤ c.toNat) (hquote : c ≠ '"') (hslash : c ≠ '\\')
      (hallowed : Yaml.isAllowed c = true) (hbreak : Yaml.isBreak c = false) : Piece c.toNat [c]
  | letter {l c : Char} (h : letterValue? l = some c) : Piece c.toNat ['\\', l]
  | unit {a b c d : Char} {n : Nat} (h : unitOf? [a, b, c, d] = some n)
      (hhalf : isHalf n = false) : Piece n ['\\', 'u', a, b, c, d]

/-- A text in quotes. -/
def Quoted (s : String) (cs : List Char) : Prop :=
  ∃ ns pieces, List.Forall₂ Piece ns pieces ∧ s = String.ofList (ns.flatMap ofPoint) ∧
    cs = '"' :: (pieces.flatten ++ ['"'])

/-- What follows an escape by four digits is none, or one of four digits too. -/
def Even (rest : List Char) : Prop :=
  ∀ e f g h more, rest = '\\' :: 'u' :: e :: f :: g :: h :: more →
    ∃ m, unitOf? [e, f, g, h] = some m

theorem Piece.even {n : Nat} {piece : List Char} (h : Piece n piece) (rest : List Char) :
    Even (piece ++ rest) := by
  intro e f g k more heq
  cases h with
  | plain _ _ hslash => exact absurd (List.cons.inj heq).1 hslash
  | letter h =>
    rw [(List.cons.inj (List.cons.inj heq).2).1] at h
    cases h
  | unit h =>
    cases heq
    exact ⟨_, h⟩

/-- An escape by four digits is read, unless two halves of a character meet. -/
theorem readPoint_digits {a b c d : Char} {n : Nat} (h : unitOf? [a, b, c, d] = some n)
    (hhalf : isHalf n = false) (hrest : Even rest) :
    forget (readPoint ('\\' :: 'u' :: a :: b :: c :: d :: rest)) = some (n, rest) := by
  by_cases hunit : ∃ e f g k more, rest = '\\' :: 'u' :: e :: f :: g :: k :: more
  · obtain ⟨e, f, g, k, more, rfl⟩ := hunit
    obtain ⟨m, hm⟩ := hrest e f g k more rfl
    have hnot : ¬ (isHighHalf n && isLowHalf m) = true := by
      rw [Text.not_isHalf_iff] at hhalf
      simp only [isHighHalf, isLowHalf, Bool.and_eq_true, decide_eq_true_iff]
      omega
    rw [readPoint]
    simp only [h, hm, Option.bind_eq_bind, Option.bind_some, if_neg hnot]
    rfl
  · rw [readPoint]
    · simp only [h]
      rfl
    · exact fun e f g k more heq => hunit ⟨e, f, g, k, more, heq⟩

theorem Piece.readPoint {n : Nat} {piece : List Char} (h : Piece n piece) (hrest : Even rest) :
    forget (readPoint (piece ++ rest)) = some (n, rest) := by
  cases h with
  | plain hcontrol _ hslash => exact readPoint_plain hcontrol hslash
  | letter h => exact readPoint_letter h
  | unit h hhalf => exact readPoint_digits h hhalf hrest

theorem Piece.head {n : Nat} {piece : List Char} (h : Piece n piece) :
    ∃ c cs, piece = c :: cs ∧ c ≠ '"' := by
  cases h with
  | plain _ hquote => exact ⟨_, [], rfl, hquote⟩
  | letter h => exact ⟨'\\', _, rfl, by decide⟩
  | unit h => exact ⟨'\\', _, rfl, by decide⟩

/-- **A text is read piece by piece**, up to the closing quote. -/
theorem readText_pieces {ns : List Nat} {pieces : List (List Char)}
    (h : List.Forall₂ Piece ns pieces) (rest : List Char) :
    forget (readText (pieces.flatten ++ '"' :: rest)) = some (ns.flatMap ofPoint, rest) := by
  induction h with
  | nil =>
    rw [List.flatten_nil, List.nil_append, readText]
    rfl
  | @cons n piece ns others hfirst hothers ih =>
    obtain ⟨c, cs, rfl, hc⟩ := hfirst.head
    have heven : Even (others.flatten ++ '"' :: rest) := by
      cases hothers with
      | nil =>
        intro e f g k more heq
        cases heq
      | cons hnext _ =>
        rw [List.flatten_cons, List.append_assoc]
        exact hnext.even _
    rw [List.flatten_cons, List.append_assoc, List.flatMap_cons]
    exact readText_step rfl hc (hfirst.readPoint heven) ih

/-- **What stands in quotes is read as its text.** -/
theorem Quoted.read {s : String} {cs : List Char} (h : Quoted s cs) : ∃ text, cs = '"' :: text ∧
    ∀ rest, forget (readText (text ++ rest)) = some (s.toList, rest) := by
  obtain ⟨ns, pieces, hpieces, rfl, rfl⟩ := h
  refine ⟨_, rfl, fun rest => ?_⟩
  rw [String.toList_ofList, List.append_assoc]
  exact readText_pieces hpieces rest

/-! ## The shared style -/

/-- **The notation that JSON and YAML share.** -/
def Style.shared : Style where
  blank c := c = ' ' ∨ c = '\n' ∨ c = '\r'
  bare := Bare
  quoted := Quoted
  colonGap key gap := (∀ c ∈ gap, c = ' ') ∧ (ofChars key).length + gap.length ≤ 1024

/-- It is legal JSON. -/
theorem Style.shared_legal : Style.shared.Legal where
  blank h := by rcases h with rfl | rfl | rfl <;> rfl
  bare := Bare.spells
  quoted := Quoted.read
  colonGap h c hc := by
    rw [h.1 c hc]
    rfl

/-! ## What is kept of it -/

/-- A text as it is kept when it is read from a file. -/
def keep (cs : List Char) : List Char :=
  ofChars (withLineFeeds cs)

/-- The shared style in what is kept of a text: there is one kind of line break, and characters
are kept as code points. -/
def Style.kept : Style where
  blank c := c = ' ' ∨ c = '\n'
  bare := Bare
  quoted s cs := ∃ text, Quoted s text ∧ cs = ofChars text
  colonGap key gap := (∀ c ∈ gap, c = ' ') ∧ key.length + gap.length ≤ 1024

theorem withLineFeeds_cons {c : Char} (hc : c ≠ '\r') :
    withLineFeeds (c :: rest) = c :: withLineFeeds rest := by
  rw [withLineFeeds]
  · exact fun _ h _ => hc h
  · exact fun h => hc h

theorem withLineFeeds_return (hrest : rest.head? ≠ some '\n') :
    withLineFeeds ('\r' :: rest) = '\n' :: withLineFeeds rest := by
  rw [withLineFeeds]
  rintro tail rfl
  exact hrest rfl

/-- The line breaks of a text are those of its parts, unless one part ends and the other begins
with one. -/
theorem withLineFeeds_append (hrest : rest.head? ≠ some '\n') :
    ∀ cs, withLineFeeds (cs ++ rest) = withLineFeeds cs ++ withLineFeeds rest
  | [] => rfl
  | [c] => by
    by_cases hc : c = '\r'
    · rw [hc, List.singleton_append, withLineFeeds_return hrest]
      rfl
    · rw [List.singleton_append, withLineFeeds_cons hc, withLineFeeds_cons hc]
      rfl
  | c :: d :: cs => by
    have hcs := withLineFeeds_append hrest cs
    have hdcs := withLineFeeds_append hrest (d :: cs)
    by_cases hc : c = '\r'
    · by_cases hd : d = '\n'
      · rw [hc, hd, List.cons_append, List.cons_append, withLineFeeds, withLineFeeds, hcs,
          List.cons_append]
      · have hhead : (d :: cs).head? ≠ some '\n' := by simpa using hd
        rw [hc, List.cons_append, withLineFeeds_return (by simpa using hd),
          withLineFeeds_return hhead, hdcs, List.cons_append]
    · rw [List.cons_append, withLineFeeds_cons hc, withLineFeeds_cons hc, hdcs, List.cons_append]

/-- A text without returns has the line breaks that it has. -/
theorem withLineFeeds_of_notMem {cs : List Char} (h : '\r' ∉ cs) :
    withLineFeeds (cs ++ rest) = cs ++ withLineFeeds rest := by
  induction cs with
  | nil => rfl
  | cons c cs ih =>
    rw [List.mem_cons, not_or] at h
    rw [List.cons_append, withLineFeeds_cons (Ne.symm h.1), ih h.2, List.cons_append]

/-- The breaks between blanks are line feeds. -/
theorem gap_withLineFeeds :
    ∀ gap, Style.shared.Gap gap → Style.kept.Gap (withLineFeeds gap)
  | [], _ => fun _ hc => absurd hc List.not_mem_nil
  | [c], h => by
    rcases h c List.mem_cons_self with rfl | rfl | rfl
    · exact fun d hd => .inl (List.mem_singleton.mp hd)
    · exact fun d hd => .inr (List.mem_singleton.mp hd)
    · exact fun d hd => .inr (List.mem_singleton.mp hd)
  | c :: d :: gap, h => by
    obtain ⟨hc, hrest⟩ := List.forall_mem_cons.mp h
    have hgap := gap_withLineFeeds gap (List.forall_mem_cons.mp hrest).2
    have hmore := gap_withLineFeeds (d :: gap) hrest
    rcases hc with rfl | rfl | rfl
    · rw [withLineFeeds_cons (by decide)]
      exact List.forall_mem_cons.mpr ⟨.inl rfl, hmore⟩
    · rw [withLineFeeds_cons (by decide)]
      exact List.forall_mem_cons.mpr ⟨.inr rfl, hmore⟩
    · by_cases hd : d = '\n'
      · rw [hd, withLineFeeds]
        exact List.forall_mem_cons.mpr ⟨.inr rfl, hgap⟩
      · rw [withLineFeeds_return (by simpa using hd)]
        exact List.forall_mem_cons.mpr ⟨.inr rfl, hmore⟩

theorem Style.Gap.ascii {gap : List Char} (h : Style.kept.Gap gap) : ∀ c ∈ gap, c.toNat < 0x80 := by
  intro c hc
  rcases h c hc with rfl | rfl <;> decide

theorem keep_append {cs : List Char} (h : '\r' ∉ cs) :
    keep (cs ++ rest) = ofChars cs ++ keep rest := by
  rw [keep, withLineFeeds_of_notMem h, ofChars_append, keep]

/-- A mark is kept, with what follows it. -/
theorem keep_mark {c : Char} (hc : c ∈ ['[', ']', '\x7b', '\x7d', ',', ':']) :
    keep (c :: rest) = c :: keep rest := by
  have hall : ∀ d ∈ ['[', ']', '\x7b', '\x7d', ',', ':'], '\r' ∉ [d] ∧ ofChars [d] = [d] := by
    decide
  obtain ⟨hreturn, hsame⟩ := hall c hc
  have hkept := @keep_append rest [c] hreturn
  rwa [hsame] at hkept

/-- Blanks are kept, in front of what is none. -/
theorem keep_gap {gap : List Char} (h : Style.shared.Gap gap) (hrest : rest.head? ≠ some '\n') :
    keep (gap ++ rest) = withLineFeeds gap ++ keep rest := by
  rw [keep, withLineFeeds_append hrest, ofChars_append,
    ofChars_of_ascii (gap_withLineFeeds gap h).ascii, keep]

/-- What holds of all characters of ASCII is decided one by one. -/
theorem forall_ascii (P : Char → Prop) (h : ∀ n < 128, P (.ofNat n)) {c : Char}
    (hc : c.toNat < 128) : P c := by
  have hn := h c.toNat hc
  rwa [Char.ofNat_toNat] at hn

/-- A character that a number or a word is written with. -/
def IsBare (c : Char) : Prop :=
  c.isAlphanum = true ∨ c ∈ ['-', '+', '.']

instance : DecidablePred IsBare := fun _ => inferInstanceAs (Decidable (_ ∨ _))

theorem IsBare.ascii {c : Char} (h : IsBare c) : c.toNat < 128 := by
  rcases h with h | h
  · rw [Text.isAlphanum_iff, Text.isUpper_iff, Text.isLower_iff, Text.isDigit_iff] at h
    omega
  · revert c
    decide

/-- A number or a word is written with nothing else. -/
theorem Bare.plain {j : Json} {cs : List Char} (h : Bare j cs) : ∀ c ∈ cs, IsBare c := by
  have hdigit : ∀ {ds : List Char}, Digits ds → ∀ c ∈ ds, IsBare c :=
    fun hds c hc => .inl (Text.isAlphanum_iff.mpr (.inr (.inr (hds.2 c hc))))
  have hsign : ∀ b, ∀ c ∈ signText b, IsBare c := by decide
  cases h with
  | null => decide
  | bool b => cases b <;> decide
  | @whole negative ds hds =>
    exact fun c hc => (List.mem_append.mp hc).elim (hsign negative c) (hdigit hds c)
  | @real negative whole fraction exponent scale hwhole _ hfraction hexponent =>
    have hmark : ∀ c ∈ ['e', 'E', '+', '-'], IsBare c := by decide
    have hbehind : ∀ c ∈ exponent, IsBare c := by
      cases hexponent with
      | none => simp
      | @positive e ds he hds =>
        have hletter : IsBare e := hmark e (by rcases he with rfl | rfl <;> simp)
        exact List.forall_mem_cons.mpr
          ⟨hletter, List.forall_mem_cons.mpr ⟨hmark _ (by simp), hdigit hds⟩⟩
      | @negative e ds he hds =>
        have hletter : IsBare e := hmark e (by rcases he with rfl | rfl <;> simp)
        exact List.forall_mem_cons.mpr
          ⟨hletter, List.forall_mem_cons.mpr ⟨hmark _ (by simp), hdigit hds⟩⟩
    intro c hc
    simp only [List.mem_append, List.mem_cons] at hc
    rcases hc with hc | hc | rfl | hc | hc
    · exact hsign negative c hc
    · exact hdigit hwhole c hc
    · exact .inr (by simp)
    · exact hdigit hfraction c hc
    · exact hbehind c hc

/-- It is kept as it is. -/
theorem Bare.kept {j : Json} {cs : List Char} (h : Bare j cs) : '\r' ∉ cs ∧ ofChars cs = cs :=
  ⟨fun hin => absurd (h.plain _ hin) (by decide), ofChars_of_ascii fun c hc => (h.plain c hc).ascii⟩

/-- It starts with a letter or a digit, or with a minus sign in front of one. -/
theorem Bare.head {j : Json} {cs : List Char} (h : Bare j cs) : ∃ c tail, cs = c :: tail ∧
    (c.isAlphanum = true ∨ c = '-' ∧ ∃ d behind, tail = d :: behind ∧ d.isAlphanum = true) := by
  have hnumber : ∀ negative {ds : List Char} (more : List Char), Digits ds →
      ∃ c tail, signText negative ++ (ds ++ more) = c :: tail ∧
        (c.isAlphanum = true ∨ c = '-' ∧ ∃ d behind, tail = d :: behind ∧ d.isAlphanum = true) := by
    intro negative ds more hds
    obtain ⟨d, ds, rfl⟩ := List.exists_cons_of_ne_nil hds.1
    have hd : d.isAlphanum = true :=
      Text.isAlphanum_iff.mpr (.inr (.inr (hds.2 d List.mem_cons_self)))
    cases negative with
    | true => exact ⟨'-', _, rfl, .inr ⟨rfl, d, _, rfl, hd⟩⟩
    | false => exact ⟨d, _, rfl, .inl hd⟩
  cases h with
  | null => exact ⟨'n', _, rfl, .inl (by decide)⟩
  | bool b =>
    cases b with
    | true => exact ⟨'t', _, rfl, .inl (by decide)⟩
    | false => exact ⟨'f', _, rfl, .inl (by decide)⟩
  | @whole negative ds hds =>
    obtain ⟨c, tail, htext, hc⟩ := hnumber negative [] hds
    rw [List.append_nil] at htext
    exact ⟨c, tail, htext, hc⟩
  | real hwhole => exact hnumber _ _ hwhole

/-- A letter behind a backslash is one of ASCII. -/
theorem letter_ascii {l c : Char} (h : letterValue? l = some c) :
    0x20 ≤ l.toNat ∧ l.toNat < 0x7f := by
  rw [letterValue?.eq_def] at h
  split at h <;> cases h <;> exact ⟨by decide, by decide⟩

/-- So is a hexadecimal digit, and its value is below sixteen. -/
theorem hexValue?_ascii {c : Char} {v : Nat} (h : Text.hexValue? c = some v) :
    (0x20 ≤ c.toNat ∧ c.toNat < 0x7f) ∧ v < 16 := by
  have hlimits : '0'.toNat = 48 ∧ '9'.toNat = 57 ∧ 'a'.toNat = 97 ∧ 'f'.toNat = 102 ∧
      'A'.toNat = 65 ∧ 'F'.toNat = 70 := by decide
  have hle : ∀ {x y : Char}, x ≤ y → x.toNat ≤ y.toNat := fun h => h
  rw [Text.hexValue?] at h
  split_ifs at h with hdigit hsmall hcapital
  · have := hle hdigit.1
    have := hle hdigit.2
    have := Option.some.inj h
    omega
  · have := hle hsmall.1
    have := hle hsmall.2
    have := Option.some.inj h
    omega
  · have := hle hcapital.1
    have := hle hcapital.2
    have := Option.some.inj h
    omega

/-- The values of four digits. -/
theorem unitOf?_values {a b c d : Char} {n : Nat} (h : unitOf? [a, b, c, d] = some n) :
    ∃ va vb vc vd, Text.hexValue? a = some va ∧ Text.hexValue? b = some vb ∧
      Text.hexValue? c = some vc ∧ Text.hexValue? d = some vd ∧
      n = ((va * 16 + vb) * 16 + vc) * 16 + vd := by
  simp only [unitOf?, Option.bind_eq_bind, Option.bind_eq_some_iff] at h
  obtain ⟨va, ha, vb, hb, vc, hc, vd, hd, hn⟩ := h
  exact ⟨va, vb, vc, vd, ha, hb, hc, hd, (Option.some.inj hn).symm⟩

/-- A piece is a character by itself, or an escape in ASCII. -/
theorem Piece.ascii {n : Nat} {piece : List Char} (h : Piece n piece)
    (hslash : piece.head? = some '\\') : ∀ x ∈ piece, 0x20 ≤ x.toNat ∧ x.toNat < 0x7f := by
  have hmark : ∀ x ∈ ['\\', 'u'], 0x20 ≤ x.toNat ∧ x.toNat < 0x7f := by decide
  intro x hx
  cases h with
  | plain _ _ hne => exact absurd (Option.some.inj hslash) hne
  | letter hl =>
    simp only [List.mem_cons, List.not_mem_nil, or_false] at hx
    rcases hx with rfl | rfl
    · exact hmark _ (by simp)
    · exact letter_ascii hl
  | unit hn =>
    obtain ⟨va, vb, vc, vd, ha, hb, hc, hd, -⟩ := unitOf?_values hn
    simp only [List.mem_cons, List.not_mem_nil, or_false] at hx
    rcases hx with rfl | rfl | rfl | rfl | rfl | rfl
    · exact hmark _ (by simp)
    · exact hmark _ (by simp)
    · exact (hexValue?_ascii ha).1
    · exact (hexValue?_ascii hb).1
    · exact (hexValue?_ascii hc).1
    · exact (hexValue?_ascii hd).1

/-- An escape is kept as it is. -/
theorem Piece.kept {n : Nat} {piece : List Char} (h : Piece n piece)
    (hslash : piece.head? = some '\\') : ofChars piece = piece :=
  ofChars_of_ascii fun x hx => (h.ascii hslash x hx).2.trans (by decide)

theorem Piece.printed {n : Nat} {piece : List Char} (h : Piece n piece) :
    ∀ x ∈ piece, 0x20 ≤ x.toNat := by
  cases h with
  | plain hcontrol => exact fun x hx => List.mem_singleton.mp hx ▸ hcontrol
  | letter hl => exact fun x hx => ((Piece.letter hl).ascii rfl x hx).1
  | unit hn hhalf => exact fun x hx => ((Piece.unit hn hhalf).ascii rfl x hx).1

theorem Quoted.notMem {s : String} {cs : List Char} (h : Quoted s cs) : '\r' ∉ cs := by
  obtain ⟨ns, pieces, hpieces, -, rfl⟩ := h
  intro hin
  simp only [List.mem_cons, List.mem_append, List.mem_flatten, List.not_mem_nil, or_false] at hin
  rcases hin with hin | ⟨piece, hpiece, hin⟩ | hin
  · cases hin
  · obtain ⟨n, -, hn⟩ := Sequence.exists_of_mem_right hpieces hpiece
    exact absurd (hn.printed _ hin) (by decide)
  · cases hin

/-- **What is kept of a shared text is written by the same rules.** -/
theorem Style.Writes.kept {p : Phrase} {cs : List Char} (h : Style.shared.Writes p cs) :
    ∃ ks, Style.kept.Writes p ks ∧ ∀ rest, keep (cs ++ rest) = ks ++ keep rest := by
  have hhead : ∀ {p cs}, Style.shared.Writes p cs → ∀ rest, (cs ++ rest).head? ≠ some '\n' := by
    intro p cs h rest heq
    obtain ⟨c, tail, rfl, hc⟩ := shared_legal.head h
    cases heq
    cases hc
  induction h with
  | @bare j cs h =>
    obtain ⟨hreturn, hsame⟩ := h.kept
    refine ⟨cs, .bare h, fun rest => ?_⟩
    rw [keep_append hreturn, hsame]
  | @quoted s cs h => exact ⟨ofChars cs, .quoted ⟨cs, h, rfl⟩, fun rest => keep_append h.notMem⟩
  | @emptyArray lead hlead =>
    refine ⟨_, .emptyArray (gap_withLineFeeds lead hlead), fun rest => ?_⟩
    simp only [List.cons_append, List.append_assoc, List.nil_append]
    rw [keep_mark (by simp), keep_gap hlead (by simp), keep_mark (by simp)]
  | @array js lead cs hlead h ih =>
    obtain ⟨ks, hks, hkeep⟩ := ih
    refine ⟨_, .array (gap_withLineFeeds lead hlead) hks, fun rest => ?_⟩
    simp only [List.cons_append, List.append_assoc]
    rw [keep_mark (by simp), keep_gap hlead (hhead h _), hkeep]
  | @lastItem j cs trail h htrail ih =>
    obtain ⟨ks, hks, hkeep⟩ := ih
    refine ⟨_, .lastItem hks (gap_withLineFeeds trail htrail), fun rest => ?_⟩
    simp only [List.cons_append, List.append_assoc, List.nil_append]
    rw [hkeep, keep_gap htrail (by simp), keep_mark (by simp)]
  | @item j js cs trail lead more h htrail hlead hmore ih ihmore =>
    obtain ⟨ks, hks, hkeep⟩ := ih
    obtain ⟨ms, hms, hmkeep⟩ := ihmore
    refine ⟨_, .item hks (gap_withLineFeeds trail htrail) (gap_withLineFeeds lead hlead) hms,
      fun rest => ?_⟩
    simp only [List.cons_append, List.append_assoc]
    rw [hkeep, keep_gap htrail (by simp), keep_mark (by simp), keep_gap hlead (hhead hmore _),
      hmkeep]
  | @emptyObject lead hlead =>
    refine ⟨_, .emptyObject (gap_withLineFeeds lead hlead), fun rest => ?_⟩
    simp only [List.cons_append, List.append_assoc, List.nil_append]
    rw [keep_mark (by simp), keep_gap hlead (by simp), keep_mark (by simp)]
  | @object es lead cs hlead h ih =>
    obtain ⟨ks, hks, hkeep⟩ := ih
    refine ⟨_, .object (gap_withLineFeeds lead hlead) hks, fun rest => ?_⟩
    simp only [List.cons_append, List.append_assoc]
    rw [keep_mark (by simp), keep_gap hlead (hhead h _), hkeep]
  | @entry name j key gap lead cs hkey hgap hlead h ih =>
    obtain ⟨ks, hks, hkeep⟩ := ih
    have hspaces : Style.kept.Gap gap := fun c hc => .inl (hgap.1 c hc)
    have hreturn : '\r' ∉ gap := fun hin => by cases hgap.1 _ hin
    refine ⟨_, .entry ⟨key, hkey, rfl⟩ hgap (gap_withLineFeeds lead hlead) hks, fun rest => ?_⟩
    simp only [List.cons_append, List.append_assoc]
    rw [keep_append hkey.notMem, keep_append hreturn, ofChars_of_ascii hspaces.ascii,
      keep_mark (by simp), keep_gap hlead (hhead h _), hkeep]
  | @lastEntry name j cs trail h htrail ih =>
    obtain ⟨ks, hks, hkeep⟩ := ih
    refine ⟨_, .lastEntry hks (gap_withLineFeeds trail htrail), fun rest => ?_⟩
    simp only [List.cons_append, List.append_assoc, List.nil_append]
    rw [hkeep, keep_gap htrail (by simp), keep_mark (by simp)]
  | @moreEntries name j es cs trail lead more h htrail hlead hmore ih ihmore =>
    obtain ⟨ks, hks, hkeep⟩ := ih
    obtain ⟨ms, hms, hmkeep⟩ := ihmore
    refine ⟨_, .moreEntries hks (gap_withLineFeeds trail htrail) (gap_withLineFeeds lead hlead) hms,
      fun rest => ?_⟩
    simp only [List.cons_append, List.append_assoc]
    rw [hkeep, keep_gap htrail (by simp), keep_mark (by simp), keep_gap hlead (hhead hmore _),
      hmkeep]

/-- **So is what is kept of a whole text.** -/
theorem Style.Renders.kept {j : Json} {text : List Char} (h : Style.shared.Renders j text) :
    Style.kept.Renders j (keep text) := by
  obtain ⟨lead, cs, trail, hlead, hcs, htrail, rfl⟩ := h
  obtain ⟨ks, hks, hkeep⟩ := hcs.kept
  obtain ⟨c, tail, hhead, hc⟩ := shared_legal.head hcs
  have hfirst : (cs ++ trail).head? ≠ some '\n' := by
    rw [hhead]
    rintro heq
    cases heq
    cases hc
  have hlast : keep trail = withLineFeeds trail := by
    have hend := @keep_gap [] trail htrail (by simp)
    rw [List.append_nil] at hend
    rw [hend]
    exact List.append_nil _
  exact ⟨_, ks, _, gap_withLineFeeds lead hlead, hks, gap_withLineFeeds trail htrail, by
    rw [keep_gap hlead hfirst, hkeep, hlast]⟩

/-! ## Characters that may stand in a text -/

theorem isAllowed_of_ascii {c : Char} (hc : 0x20 ≤ c.toNat) (hmost : c.toNat < 0x7f) :
    Yaml.isAllowed c = true := by
  simp only [Yaml.isAllowed, Bool.or_eq_true, Bool.and_eq_true, decide_eq_true_iff]
  omega

/-- A character that may stand in a text may stand there as it is kept. -/
theorem isAllowed_ofChars {cs : List Char} (h : ∀ c ∈ cs, Yaml.isAllowed c = true) :
    ∀ c ∈ ofChars cs, Yaml.isAllowed c = true := by
  intro x hx
  obtain ⟨c, hc, hx⟩ := List.mem_flatMap.mp hx
  have hwhole : isHalf c.toNat = false := Text.not_isHalf_iff.mpr (Text.not_half c)
  rw [ofPoint, hwhole, Char.ofNat_toNat, if_neg Bool.false_ne_true] at hx
  split at hx
  · rcases List.mem_cons.mp hx with rfl | hx
    · decide
    · exact List.mem_singleton.mp hx ▸ h c hc
  · exact List.mem_singleton.mp hx ▸ h c hc

theorem Piece.allowed {n : Nat} {piece : List Char} (h : Piece n piece) :
    ∀ c ∈ piece, Yaml.isAllowed c = true := by
  have hescape : piece.head? = some '\\' → ∀ c ∈ piece, Yaml.isAllowed c = true :=
    fun hslash c hc => isAllowed_of_ascii (h.ascii hslash c hc).1 (h.ascii hslash c hc).2
  cases h with
  | plain _ _ _ hallowed => exact fun c hc => List.mem_singleton.mp hc ▸ hallowed
  | letter => exact hescape rfl
  | unit => exact hescape rfl

theorem Quoted.allowed {s : String} {cs : List Char} (h : Quoted s cs) :
    ∀ c ∈ cs, Yaml.isAllowed c = true := by
  obtain ⟨ns, pieces, hpieces, -, rfl⟩ := h
  intro c hc
  simp only [List.mem_cons, List.mem_append, List.mem_flatten, List.not_mem_nil, or_false] at hc
  rcases hc with rfl | ⟨piece, hpiece, hc⟩ | rfl
  · decide
  · obtain ⟨n, -, hn⟩ := Sequence.exists_of_mem_right hpieces hpiece
    exact hn.allowed c hc
  · decide

theorem Style.Gap.allowed {gap : List Char} (h : Style.kept.Gap gap) :
    ∀ c ∈ gap, Yaml.isAllowed c = true := by
  intro c hc
  rcases h c hc with rfl | rfl <;> decide

/-- **All that is kept of a shared text may stand in a text.** -/
theorem Style.Writes.allowed {p : Phrase} {ks : List Char} (h : Style.kept.Writes p ks) :
    ∀ c ∈ ks, Yaml.isAllowed c = true := by
  induction h with
  | bare h =>
    have hbare : ∀ n < 128, IsBare (Char.ofNat n) → Yaml.isAllowed (Char.ofNat n) = true := by
      decide +kernel
    exact fun c hc => forall_ascii (fun c => IsBare c → Yaml.isAllowed c = true) hbare
      (h.plain c hc).ascii (h.plain c hc)
  | quoted h =>
    obtain ⟨text, htext, rfl⟩ := h
    exact isAllowed_ofChars htext.allowed
  | emptyArray hlead =>
    simp only [List.forall_mem_cons, List.forall_mem_append]
    exact ⟨by decide, hlead.allowed, by decide⟩
  | array hlead _ ih =>
    simp only [List.forall_mem_cons, List.forall_mem_append]
    exact ⟨by decide, hlead.allowed, ih⟩
  | lastItem _ htrail ih =>
    simp only [List.forall_mem_cons, List.forall_mem_append]
    exact ⟨ih, htrail.allowed, by decide⟩
  | item _ htrail hlead _ ih ihmore =>
    simp only [List.forall_mem_cons, List.forall_mem_append]
    exact ⟨ih, htrail.allowed, by decide, hlead.allowed, ihmore⟩
  | emptyObject hlead =>
    simp only [List.forall_mem_cons, List.forall_mem_append]
    exact ⟨by decide, hlead.allowed, by decide⟩
  | object hlead _ ih =>
    simp only [List.forall_mem_cons, List.forall_mem_append]
    exact ⟨by decide, hlead.allowed, ih⟩
  | entry hkey hgap hlead _ ih =>
    obtain ⟨text, htext, rfl⟩ := hkey
    have hspaces : Style.kept.Gap _ := fun c hc => .inl (hgap.1 c hc)
    simp only [List.forall_mem_cons, List.forall_mem_append]
    exact ⟨isAllowed_ofChars htext.allowed, hspaces.allowed, by decide, hlead.allowed, ih⟩
  | lastEntry _ htrail ih =>
    simp only [List.forall_mem_cons, List.forall_mem_append]
    exact ⟨ih, htrail.allowed, by decide⟩
  | moreEntries _ htrail hlead _ ih ihmore =>
    simp only [List.forall_mem_cons, List.forall_mem_append]
    exact ⟨ih, htrail.allowed, by decide, hlead.allowed, ihmore⟩

theorem Style.Renders.allowed {j : Json} {text : List Char} (h : Style.kept.Renders j text) :
    ∀ c ∈ text, Yaml.isAllowed c = true := by
  obtain ⟨lead, cs, trail, hlead, hcs, htrail, rfl⟩ := h
  simp only [List.forall_mem_append]
  exact ⟨hlead.allowed, hcs.allowed, htrail.allowed⟩

end Json

end ApiMock
