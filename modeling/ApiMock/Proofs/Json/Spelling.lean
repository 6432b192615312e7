import Mathlib.Data.List.TakeDrop
import ApiMock.Proofs.Json.Texts
import ApiMock.Proofs.Sequence
import ApiMock.Proofs.Text.Words
/-!
# JSON — values, written and read

A text spells a value if it is read as the value and no further, whatever
follows that does not go on with a number. Words and whole numbers do, and
so do quoted texts, of their texts with halves joined. A collection is
spelled by its parts with separators in between and any blanks around them
(`spells_array`, `spells_object`). A whole text that spells a value is
parsed as it (`Spells.parse`).
-/

namespace ApiMock

namespace Json

/-- What cannot be read as more of a number. -/
def Closed (rest : List Char) : Prop :=
  ∀ c ∈ rest.head?, c.isDigit = false ∧ c ≠ '.' ∧ c ≠ 'e' ∧ c ≠ 'E'

/-- The text writes the value: it is read as the value and no further,
whatever follows that cannot be read as more of a number. -/
structure Spells (j : Json) (text : List Char) : Prop where
  starts : ∃ c cs, text = c :: cs ∧ isSpace c = false ∧ c ≠ ']' ∧ c ≠ '\x7d'
  reads : ∀ rest, Closed rest → forget (readValue (text ++ rest)) = some (j, rest)

variable {text rest : List Char}

/-- A text that starts with no quote and no bracket is read as a word. -/
theorem readValue_word {j : Json} (hquote : text.head? ≠ some '"')
    (hbracket : text.head? ≠ some '[') (hbrace : text.head? ≠ some '\x7b') (h : readWord text = some (j, rest))
    (hlt : rest.length < text.length) : forget (readValue text) = some (j, rest) := by
  rw [readValue]
  · rw [h]
    simp only [dif_pos hlt]
    rfl
  · rintro tail rfl
    exact hquote rfl
  · rintro tail rfl
    exact hbracket rfl
  · rintro tail rfl
    exact hbrace rfl

/-- A word spells a value if it is read as the value and starts with a character of its own. -/
theorem spells_word {j : Json} {word : List Char} {c : Char} (hc : word.head? = some c)
    (hfree : isSpace c = false ∧ c ∉ ['"', '[', ']', '\x7b', '\x7d'])
    (h : ∀ rest, Closed rest → readWord (word ++ rest) = some (j, rest)) : Spells j word := by
  obtain ⟨cs, rfl⟩ := List.head?_eq_some_iff.mp hc
  obtain ⟨hspace, hfree⟩ := hfree
  simp only [List.mem_cons, List.not_mem_nil, or_false, not_or] at hfree
  obtain ⟨hquote, hopen, hclose, hbrace, hend⟩ := hfree
  refine ⟨⟨c, cs, rfl, hspace, hclose, hend⟩, fun rest hrest => ?_⟩
  refine readValue_word ?_ ?_ ?_ (h rest hrest) ?_
  · simpa using hquote
  · simpa using hopen
  · simpa using hbrace
  · rw [List.length_append, List.length_cons]
    omega

theorem spells_null : Spells .null "null".toList :=
  spells_word rfl (by decide) fun _ _ => rfl

theorem spells_bool (b : Bool) : Spells (.bool b) (if b then "true" else "false").toList := by
  cases b
  · exact spells_word rfl (by decide) fun _ _ => rfl
  · exact spells_word rfl (by decide) fun _ _ => rfl

/-! ## Numbers -/

/-- The digits of a number are read back. -/
theorem natOf_toDigits (n : Nat) : natOf (Nat.toDigits 10 n) = n :=
  Nat.ofDigitChars_toDigits (by decide) (by decide)

theorem isDigit_of_mem_toDigits {n : Nat} {c : Char} (h : c ∈ Nat.toDigits 10 n) :
    c.isDigit = true :=
  Nat.isDigit_of_mem_toDigits (by decide) (by decide) h

/-- A positive number starts with another digit than zero. -/
theorem head_toDigits {n : Nat} (h : 0 < n) :
    ∃ c cs, Nat.toDigits 10 n = c :: cs ∧ c ≠ '0' := by
  induction n using Nat.strongRecOn with
  | ind n ih =>
    rw [Nat.toDigits_eq_if (by decide)]
    by_cases hsmall : n < 10
    · rw [if_pos hsmall]
      have hall : ∀ n < 10, 0 < n → n.digitChar ≠ '0' := by decide
      exact ⟨_, _, rfl, hall n hsmall h⟩
    · rw [if_neg hsmall]
      obtain ⟨c, cs, hdigits, hc⟩ := ih (n / 10) (by omega) (by omega)
      exact ⟨c, _, by rw [hdigits, List.cons_append], hc⟩

/-- No zero stands before other digits. -/
theorem isWholePart_toDigits (n : Nat) : isWholePart (Nat.toDigits 10 n) = true := by
  rcases Nat.eq_zero_or_pos n with rfl | hpos
  · rfl
  · obtain ⟨c, cs, hdigits, hc⟩ := head_toDigits hpos
    rw [hdigits, isWholePart]
    · exact decide_eq_true hc
    · rintro rfl _
      exact hc rfl

/-- The digits of a number are split off from what follows. -/
theorem digits_toDigits (n : Nat) {rest : List Char} (hrest : Closed rest) :
    digits (Nat.toDigits 10 n ++ rest) = (Nat.toDigits 10 n, rest) := by
  have hall : ∀ c ∈ Nat.toDigits 10 n, c.isDigit = true := fun _ => isDigit_of_mem_toDigits
  have hstop : rest.head?.any Char.isDigit = false := by
    cases rest with
    | nil => rfl
    | cons c cs => exact (hrest c rfl).1
  obtain ⟨hword, hbehind⟩ := Text.takeWhile_word hall hstop
  rw [digits, List.span_eq_takeWhile_dropWhile, hword, hbehind]

/-- Behind the digits of a whole number there is no fraction. -/
theorem fractionPart_closed {rest : List Char} (hrest : Closed rest) :
    fractionPart rest = (none, rest) := by
  cases rest with
  | nil => rfl
  | cons c cs =>
    obtain ⟨-, hpoint, -⟩ := hrest c rfl
    rw [fractionPart]
    rintro _ heq
    exact hpoint (List.cons.inj heq).1

/-- And no exponent. -/
theorem exponentPart_closed {rest : List Char} (hrest : Closed rest) :
    exponentPart rest = (none, rest) := by
  cases rest with
  | nil => rfl
  | cons c cs =>
    obtain ⟨-, -, hsmall, hlarge⟩ := hrest c rfl
    have hnot : ¬ (c = 'e' || c = 'E') = true := by
      rw [Bool.or_eq_true, decide_eq_true_iff, decide_eq_true_iff]
      exact fun h => h.elim hsmall hlarge
    unfold exponentPart
    dsimp only
    rw [if_neg hnot]

/-- Splits off a sign. -/
def splitSign : List Char → Bool × List Char
  | '-' :: rest => (true, rest)
  | s => (false, s)

/-- The digits of a number behind its sign are read as the number. -/
theorem readNumber_digits {negative : Bool} {n : Nat} (hrest : Closed rest)
    (hsign : splitSign text = (negative, Nat.toDigits 10 n ++ rest)) :
    readNumber text = some (.int (if negative then -(n : Int) else n), rest) := by
  have hsteps : readNumber text =
      (numberOf? (splitSign text).1 (digits (splitSign text).2).1
        (fractionPart (digits (splitSign text).2).2).1
        (exponentPart (fractionPart (digits (splitSign text).2).2).2).1).map
          (·, (exponentPart (fractionPart (digits (splitSign text).2).2).2).2) := rfl
  have hparts : numberOf? negative (Nat.toDigits 10 n) none none =
      some (.int (if negative then -(n : Int) else n)) := by
    simp [numberOf?, isWholePart_toDigits, natOf_toDigits]
  rw [hsteps, hsign]
  simp only [digits_toDigits n hrest, fractionPart_closed hrest, exponentPart_closed hrest, hparts]
  rfl

/-- A digit or a sign is neither a blank nor a bracket, and no letter. -/
theorem free_of_number {c : Char} (h : c.isDigit = true ∨ c = '-') :
    isSpace c = false ∧ c ∉ ['"', '[', ']', '\x7b', '\x7d'] ∧ c ∉ ['n', 't', 'f'] := by
  have hspaces : ∀ d ∈ [' ', '\t', '\n', '\r'], ¬ (d.isDigit = true ∨ d = '-') := by decide
  have hbrackets : ∀ d ∈ ['"', '[', ']', '\x7b', '\x7d'], ¬ (d.isDigit = true ∨ d = '-') := by
    decide
  have hletters : ∀ d ∈ ['n', 't', 'f'], ¬ (d.isDigit = true ∨ d = '-') := by decide
  refine ⟨?_, fun hin => hbrackets c hin h, fun hin => hletters c hin h⟩
  have hspace : c ∉ [' ', '\t', '\n', '\r'] := fun hin => hspaces c hin h
  simpa [isSpace, and_assoc] using hspace

theorem readWord_number {c : Char} {cs : List Char} (hc : c.isDigit = true ∨ c = '-') :
    readWord (c :: cs) = readNumber (c :: cs) := by
  obtain ⟨-, -, hfree⟩ := free_of_number hc
  simp only [List.mem_cons, List.not_mem_nil, or_false, not_or] at hfree
  obtain ⟨hn, ht, hf⟩ := hfree
  rw [readWord]
  · rintro rest heq
    exact hn (List.cons.inj heq).1
  · rintro rest heq
    exact ht (List.cons.inj heq).1
  · rintro rest heq
    exact hf (List.cons.inj heq).1

/-- The text of a number that is not negative, and of one that is. -/
theorem toList_ofNat (m : Nat) : (toString (Int.ofNat m)).toList = Nat.toDigits 10 m := by
  have hrepr : toString (Int.ofNat m) = Nat.repr m := rfl
  rw [hrepr, Nat.repr_eq_ofList_toDigits, String.toList_ofList]

theorem toList_negSucc (m : Nat) :
    (toString (Int.negSucc m)).toList = '-' :: Nat.toDigits 10 (m + 1) := by
  have hrepr : toString (Int.negSucc m) = "-" ++ Nat.repr (m + 1) := rfl
  have hsign : "-".toList = ['-'] := rfl
  rw [hrepr, String.toList_append, hsign, Nat.repr_eq_ofList_toDigits, String.toList_ofList]
  rfl

/-- What a whole number is written with. -/
theorem mem_toString_int {n : Int} {c : Char} (h : c ∈ (toString n).toList) :
    c.isDigit = true ∨ c = '-' := by
  cases n with
  | ofNat m =>
    rw [toList_ofNat] at h
    exact .inl (isDigit_of_mem_toDigits h)
  | negSucc m =>
    rw [toList_negSucc, List.mem_cons] at h
    exact h.symm.imp isDigit_of_mem_toDigits id

/-- **A whole number is spelled** by its digits, behind its sign. -/
theorem spells_int (n : Int) : Spells (.int n) (toString n).toList := by
  have hspells : ∀ (text : List Char) (c : Char), text.head? = some c →
      (c.isDigit = true ∨ c = '-') →
      (∀ rest, Closed rest → readNumber (text ++ rest) = some (.int n, rest)) →
        Spells (.int n) text := by
    intro text c hc hnumber hread
    obtain ⟨hspace, hfree, -⟩ := free_of_number hnumber
    refine spells_word hc ⟨hspace, hfree⟩ fun rest hrest => ?_
    obtain ⟨cs, rfl⟩ := List.head?_eq_some_iff.mp hc
    rw [List.cons_append, readWord_number hnumber, ← List.cons_append, hread rest hrest]
  cases n with
  | ofNat m =>
    obtain ⟨c, cs, hdigits⟩ := List.exists_cons_of_ne_nil (@Nat.toDigits_ne_nil m 10)
    have hc : c.isDigit = true := isDigit_of_mem_toDigits (hdigits ▸ List.mem_cons_self)
    rw [toList_ofNat]
    refine hspells _ c (by rw [hdigits]; rfl) (.inl hc) fun rest hrest => ?_
    have hsign : splitSign (Nat.toDigits 10 m ++ rest) = (false, Nat.toDigits 10 m ++ rest) := by
      rw [hdigits, List.cons_append, splitSign]
      rintro tail heq
      rw [(List.cons.inj heq).1] at hc
      cases hc
    exact readNumber_digits hrest hsign
  | negSucc m =>
    rw [toList_negSucc]
    refine hspells _ '-' rfl (.inr rfl) fun rest hrest => ?_
    have hsign : splitSign ('-' :: Nat.toDigits 10 (m + 1) ++ rest) =
        (true, Nat.toDigits 10 (m + 1) ++ rest) := rfl
    exact readNumber_digits hrest hsign

/-! ## Texts -/

/-- A text in between quotes, in whatever way its code points are written. -/
theorem spells_text {write : Nat → List Char} (hwrite : ∀ n < 0x110000, Writes n (write n))
    (s : String) :
    Spells (.str (joined s)) ('"' :: ((Text.points s.toList).flatMap write ++ ['"'])) where
  starts := ⟨'"', _, rfl, by decide⟩
  reads rest _ := by
    have htext : '"' :: ((Text.points s.toList).flatMap write ++ ['"']) ++ rest =
        '"' :: ((Text.points s.toList).flatMap write ++ '"' :: rest) := by simp
    obtain ⟨hlt, hread⟩ := forget_eq_some (readText_flatMap hwrite s rest)
    rw [htext, readValue, hread]
    simp only [String.ofList_toList]
    rfl

/-- A quoted text spells the text, its halves joined. -/
theorem spells_quote (s : String) : Spells (.str (joined s)) (quote s).toList := by
  have htext : (quote s).toList =
      '"' :: ((Text.points s.toList).flatMap escapePoint ++ ['"']) := by
    rw [quote, String.toList_ofList]
    rfl
  rw [htext]
  exact spells_text (fun n hn => writes_escapePoint hn) s

/-! ## Collections -/

/-- Blanks. -/
def Blank (cs : List Char) : Prop :=
  ∀ c ∈ cs, isSpace c = true

theorem blank_nil : Blank [] := fun _ hc => absurd hc List.not_mem_nil

theorem blank_space : Blank [' '] := by
  intro c hc
  rw [List.mem_singleton.mp hc]
  rfl

theorem Blank.append {xs ys : List Char} (hx : Blank xs) (hy : Blank ys) : Blank (xs ++ ys) :=
  fun c hc => (List.mem_append.mp hc).elim (hx c) (hy c)

/-- Blanks are skipped up to what is none. -/
theorem skipSpace_blank {gap : List Char} {c : Char} (hgap : Blank gap) (hc : isSpace c = false) :
    skipSpace (gap ++ c :: rest) = c :: rest := by
  rw [skipSpace, List.dropWhile_append_of_pos hgap, List.dropWhile_cons_of_neg (by simp [hc])]

/-- Behind blanks, a separator or a bracket is read as no more of a number. -/
theorem closed_blank {gap : List Char} {c : Char} (hgap : Blank gap)
    (hc : c ∈ [',', ']', '\x7d']) : Closed (gap ++ c :: rest) := by
  have hblanks : ∀ d ∈ [' ', '\t', '\n', '\r'],
      d.isDigit = false ∧ d ≠ '.' ∧ d ≠ 'e' ∧ d ≠ 'E' := by decide
  have hmarks : ∀ d ∈ [',', ']', '\x7d'],
      d.isDigit = false ∧ d ≠ '.' ∧ d ≠ 'e' ∧ d ≠ 'E' := by decide
  intro d hd
  cases gap with
  | nil =>
    cases hd
    exact hmarks c hc
  | cons b gap =>
    cases hd
    have hspace : isSpace d = true := hgap d List.mem_cons_self
    exact hblanks d (by simpa [isSpace, or_assoc] using hspace)

section

variable {s more : List Char} {j : Json} {js : List Json} {es : List (String × Json)}

/-- The last element of an array. -/
theorem readItems_last (hread : forget (readValue s) = some (j, more))
    (hskip : skipSpace more = ']' :: rest) : forget (readItems s) = some ([j], rest) := by
  obtain ⟨hlt, hread⟩ := forget_eq_some hread
  rw [readItems, hread]
  dsimp only
  split
  · rename_i hs
    rw [hskip] at hs
    cases hs
    rfl
  · rename_i hs
    rw [hskip] at hs
    cases hs
  · rename_i hother _
    exact absurd hskip (hother rest)

/-- An element of an array with others behind it. -/
theorem readItems_more {tail : List Char} (hread : forget (readValue s) = some (j, more))
    (hskip : skipSpace more = ',' :: tail)
    (hmore : forget (readItems (skipSpace tail)) = some (js, rest)) :
    forget (readItems s) = some (j :: js, rest) := by
  obtain ⟨hlt, hread⟩ := forget_eq_some hread
  obtain ⟨hlt', hmore⟩ := forget_eq_some hmore
  rw [readItems, hread]
  dsimp only
  split
  · rename_i hs
    rw [hskip] at hs
    cases hs
  · rename_i hs
    rw [hskip] at hs
    cases hs
    rw [hmore]
    rfl
  · rename_i hother
    exact absurd hskip (hother tail)

/-- The last entry of an object. -/
theorem readEntries_last {key behind : List Char} (hkey : forget (readText s) = some (key, behind))
    {value : List Char} (hcolon : skipSpace behind = ':' :: value)
    (hread : forget (readValue (skipSpace value)) = some (j, more))
    (hskip : skipSpace more = '\x7d' :: rest) :
    forget (readEntries ('"' :: s)) = some ([(String.ofList key, j)], rest) := by
  obtain ⟨hlt, hkey⟩ := forget_eq_some hkey
  obtain ⟨hlt', hread⟩ := forget_eq_some hread
  rw [readEntries, hkey]
  dsimp only
  split
  · rename_i hs
    rw [hcolon] at hs
    cases hs
    rw [hread]
    dsimp only
    split
    · rename_i hs
      rw [hskip] at hs
      cases hs
      rfl
    · rename_i hs
      rw [hskip] at hs
      cases hs
    · rename_i hother _
      exact absurd hskip (hother rest)
  · rename_i hother
    exact absurd hcolon (hother value)

/-- An entry of an object with others behind it. -/
theorem readEntries_more {key behind value tail : List Char}
    (hkey : forget (readText s) = some (key, behind)) (hcolon : skipSpace behind = ':' :: value)
    (hread : forget (readValue (skipSpace value)) = some (j, more))
    (hskip : skipSpace more = ',' :: tail)
    (hmore : forget (readEntries (skipSpace tail)) = some (es, rest)) :
    forget (readEntries ('"' :: s)) = some ((String.ofList key, j) :: es, rest) := by
  obtain ⟨hlt, hkey⟩ := forget_eq_some hkey
  obtain ⟨hlt', hread⟩ := forget_eq_some hread
  obtain ⟨hlt'', hmore⟩ := forget_eq_some hmore
  rw [readEntries, hkey]
  dsimp only
  split
  · rename_i hs
    rw [hcolon] at hs
    cases hs
    rw [hread]
    dsimp only
    split
    · rename_i hs
      rw [hskip] at hs
      cases hs
    · rename_i hs
      rw [hskip] at hs
      cases hs
      rw [hmore]
      rfl
    · rename_i hother
      exact absurd hskip (hother tail)
  · rename_i hother
    exact absurd hcolon (hother value)

/-- An array without elements, and one with some. -/
theorem readValue_empty_array (h : skipSpace s = ']' :: rest) :
    forget (readValue ('[' :: s)) = some (.arr [], rest) := by
  rw [readValue]
  split
  · rename_i hs
    rw [h] at hs
    cases hs
    rfl
  · rename_i hother
    exact absurd h (hother rest)

theorem readValue_array (h : (skipSpace s).head? ≠ some ']')
    (hitems : forget (readItems (skipSpace s)) = some (js, rest)) :
    forget (readValue ('[' :: s)) = some (.arr js, rest) := by
  obtain ⟨hlt, hitems⟩ := forget_eq_some hitems
  rw [readValue]
  split
  · rename_i hs
    rw [hs] at h
    exact absurd rfl h
  · rw [hitems]
    rfl

/-- An object without entries, and one with some. -/
theorem readValue_empty_object (h : skipSpace s = '\x7d' :: rest) :
    forget (readValue ('\x7b' :: s)) = some (.obj [], rest) := by
  rw [readValue]
  split
  · rename_i hs
    rw [h] at hs
    cases hs
    rfl
  · rename_i hother
    exact absurd h (hother rest)

theorem readValue_object (h : (skipSpace s).head? ≠ some '\x7d')
    (hentries : forget (readEntries (skipSpace s)) = some (es, rest)) :
    forget (readValue ('\x7b' :: s)) = some (.obj es, rest) := by
  obtain ⟨hlt, hentries⟩ := forget_eq_some hentries
  rw [readValue]
  split
  · rename_i hs
    rw [hs] at h
    exact absurd rfl h
  · rw [hentries]
    rfl

end

/-- The elements of an array in a row, up to its bracket with `trail` in front of it. -/
structure SpellsItems (trail : List Char) (js : List Json) (text : List Char) : Prop where
  starts : ∃ c cs, text = c :: cs ∧ isSpace c = false ∧ c ≠ ']'
  reads : ∀ rest, forget (readItems (text ++ (trail ++ ']' :: rest))) = some (js, rest)

theorem SpellsItems.last {j : Json} {part trail : List Char} (h : Spells j part)
    (htrail : Blank trail) : SpellsItems trail [j] part where
  starts := by
    obtain ⟨c, cs, htext, hc, hbracket, -⟩ := h.starts
    exact ⟨c, cs, htext, hc, hbracket⟩
  reads rest := by
    have hread := h.reads (trail ++ ']' :: rest) (closed_blank htrail (by simp))
    exact readItems_last hread (skipSpace_blank htrail (by decide))

/-- One more element, blanks behind the separator. -/
theorem SpellsItems.more {j : Json} {js : List Json} {part text gap trail : List Char}
    (hpart : Spells j part) (hgap : Blank gap) (h : SpellsItems trail js text) :
    SpellsItems trail (j :: js) (part ++ (',' :: gap ++ text)) where
  starts := by
    obtain ⟨c, cs, rfl, hc, hbracket, -⟩ := hpart.starts
    exact ⟨c, _, rfl, hc, hbracket⟩
  reads rest := by
    obtain ⟨c, cs, rfl, hc, -⟩ := h.starts
    have hrest := h.reads rest
    have htext : part ++ (',' :: gap ++ c :: cs) ++ (trail ++ ']' :: rest) =
        part ++ ',' :: (gap ++ c :: (cs ++ (trail ++ ']' :: rest))) := by
      simp only [List.append_assoc, List.cons_append]
    have hread := hpart.reads (',' :: (gap ++ c :: (cs ++ (trail ++ ']' :: rest))))
      (@closed_blank _ [] ',' blank_nil (by simp))
    rw [htext]
    refine readItems_more hread (@skipSpace_blank _ [] ',' blank_nil (by decide)) ?_
    rw [skipSpace_blank hgap hc]
    exact hrest

/-- **An array is spelled** by its elements in between brackets, with any blanks. -/
theorem spells_array {js : List Json} {parts : List (List Char)} {lead gap trail : List Char}
    (h : List.Forall₂ Spells js parts) (hlead : Blank lead) (hgap : Blank gap)
    (htrail : Blank trail) :
    Spells (.arr js)
      ('[' :: (lead ++ (List.intercalate (',' :: gap) parts ++ (trail ++ [']'])))) where
  starts := ⟨'[', _, rfl, by decide⟩
  reads rest _ := by
    have htext : '[' :: (lead ++ (List.intercalate (',' :: gap) parts ++ (trail ++ [']']))) ++
        rest =
        '[' :: (lead ++ (List.intercalate (',' :: gap) parts ++ (trail ++ ']' :: rest))) := by
      simp
    rw [htext]
    by_cases hne : js = []
    · subst hne
      cases h
      rw [List.intercalate_nil, List.nil_append, ← List.append_assoc]
      exact readValue_empty_array (skipSpace_blank (hlead.append htrail) (by decide))
    · have hitems : SpellsItems trail js (List.intercalate (',' :: gap) parts) :=
        Sequence.of_intercalate (fun _ _ hpart => .last hpart htrail)
          (fun _ _ _ _ hpart hmore => .more hpart hgap hmore) h hne
      obtain ⟨c, cs, hstart, hc, hbracket⟩ := hitems.starts
      have hread := hitems.reads rest
      rw [hstart] at hread ⊢
      have hskip : skipSpace (lead ++ (c :: cs ++ (trail ++ ']' :: rest))) =
          c :: cs ++ (trail ++ ']' :: rest) := skipSpace_blank hlead hc
      refine readValue_array ?_ ?_
      · rw [hskip]
        simpa using hbracket
      · rw [hskip]
        exact hread

/-- The text of an entry: its key, a colon and a blank, and its value. -/
def SpellsEntry (e : String × Json) (text : List Char) : Prop :=
  ∃ key value, text = '"' :: (key ++ '"' :: ':' :: ' ' :: value) ∧
    (∀ rest, forget (readText (key ++ '"' :: rest)) = some (e.1.toList, rest)) ∧ Spells e.2 value

/-- An entry is read up to what follows its value. -/
theorem SpellsEntry.read {e : String × Json} {text more : List Char} (h : SpellsEntry e text)
    (hmore : Closed more) : ∃ s key behind value, text ++ more = '"' :: s ∧
      e.1 = String.ofList key ∧ forget (readText s) = some (key, behind) ∧
      skipSpace behind = ':' :: value ∧
      forget (readValue (skipSpace value)) = some (e.2, more) := by
  obtain ⟨key, value, rfl, hkey, hvalue⟩ := h
  obtain ⟨c, cs, rfl, hc, -⟩ := hvalue.starts
  have hcolon : skipSpace (':' :: ' ' :: (c :: cs ++ more)) = ':' :: ' ' :: (c :: cs ++ more) :=
    @skipSpace_blank _ [] ':' blank_nil (by decide)
  have hblank : skipSpace (' ' :: (c :: cs ++ more)) = c :: cs ++ more :=
    skipSpace_blank blank_space hc
  refine ⟨key ++ '"' :: ':' :: ' ' :: (c :: cs ++ more), _, _, _, by simp, ?_,
    hkey (':' :: ' ' :: (c :: cs ++ more)), hcolon, ?_⟩
  · rw [String.ofList_toList]
  · rw [hblank]
    exact hvalue.reads more hmore

theorem SpellsEntry.starts {e : String × Json} {text : List Char} (h : SpellsEntry e text) :
    ∃ cs, text = '"' :: cs := by
  obtain ⟨key, value, rfl, -⟩ := h
  exact ⟨_, rfl⟩

/-- The entries of an object in a row, up to its brace with `trail` in front of it. -/
structure SpellsEntries (trail : List Char) (es : List (String × Json)) (text : List Char) :
    Prop where
  starts : ∃ cs, text = '"' :: cs
  reads : ∀ rest, forget (readEntries (text ++ (trail ++ '\x7d' :: rest))) = some (es, rest)

theorem SpellsEntries.last {e : String × Json} {part trail : List Char} (h : SpellsEntry e part)
    (htrail : Blank trail) : SpellsEntries trail [e] part where
  starts := h.starts
  reads rest := by
    have hclosed : Closed (trail ++ '\x7d' :: rest) := closed_blank htrail (by simp)
    obtain ⟨s, key, behind, value, htext, hname, hkey, hcolon, hread⟩ := h.read hclosed
    obtain ⟨name, j⟩ := e
    obtain rfl : name = String.ofList key := hname
    rw [htext]
    exact readEntries_last hkey hcolon hread (skipSpace_blank htrail (by decide))

/-- One more entry, blanks behind the separator. -/
theorem SpellsEntries.more {e : String × Json} {es : List (String × Json)}
    {part text gap trail : List Char} (hpart : SpellsEntry e part) (hgap : Blank gap)
    (h : SpellsEntries trail es text) :
    SpellsEntries trail (e :: es) (part ++ (',' :: gap ++ text)) where
  starts := by
    obtain ⟨cs, rfl⟩ := hpart.starts
    exact ⟨_, rfl⟩
  reads rest := by
    obtain ⟨cs, rfl⟩ := h.starts
    have hrest := h.reads rest
    have htext : part ++ (',' :: gap ++ '"' :: cs) ++ (trail ++ '\x7d' :: rest) =
        part ++ ',' :: (gap ++ '"' :: (cs ++ (trail ++ '\x7d' :: rest))) := by
      simp only [List.append_assoc, List.cons_append]
    have hclosed : Closed (',' :: (gap ++ '"' :: (cs ++ (trail ++ '\x7d' :: rest)))) :=
      @closed_blank _ [] ',' blank_nil (by simp)
    obtain ⟨s, key, behind, value, hs, hname, hkey, hcolon, hread⟩ := hpart.read hclosed
    obtain ⟨name, j⟩ := e
    obtain rfl : name = String.ofList key := hname
    rw [htext, hs]
    refine readEntries_more hkey hcolon hread
      (@skipSpace_blank _ [] ',' blank_nil (by decide)) ?_
    rw [skipSpace_blank hgap (by decide)]
    exact hrest

/-- **An object is spelled** by its entries in between braces, with any blanks. -/
theorem spells_object {es : List (String × Json)} {parts : List (List Char)}
    {lead gap trail : List Char} (h : List.Forall₂ SpellsEntry es parts) (hlead : Blank lead)
    (hgap : Blank gap) (htrail : Blank trail) :
    Spells (.obj es)
      ('\x7b' :: (lead ++ (List.intercalate (',' :: gap) parts ++ (trail ++ ['\x7d'])))) where
  starts := ⟨'\x7b', _, rfl, by decide⟩
  reads rest _ := by
    have htext : '\x7b' :: (lead ++ (List.intercalate (',' :: gap) parts ++ (trail ++ ['\x7d']))) ++
        rest =
        '\x7b' :: (lead ++ (List.intercalate (',' :: gap) parts ++ (trail ++ '\x7d' :: rest))) := by
      simp
    rw [htext]
    by_cases hne : es = []
    · subst hne
      cases h
      rw [List.intercalate_nil, List.nil_append, ← List.append_assoc]
      exact readValue_empty_object (skipSpace_blank (hlead.append htrail) (by decide))
    · have hentries : SpellsEntries trail es (List.intercalate (',' :: gap) parts) :=
        Sequence.of_intercalate (fun _ _ hpart => .last hpart htrail)
          (fun _ _ _ _ hpart hmore => .more hpart hgap hmore) h hne
      obtain ⟨cs, hstart⟩ := hentries.starts
      have hread := hentries.reads rest
      rw [hstart] at hread ⊢
      have hskip : skipSpace (lead ++ ('"' :: cs ++ (trail ++ '\x7d' :: rest))) =
          '"' :: cs ++ (trail ++ '\x7d' :: rest) := skipSpace_blank hlead (by decide)
      refine readValue_object ?_ ?_
      · rw [hskip]
        simp
      · rw [hskip]
        exact hread

/-- A text is parsed if a value is read behind its blanks, and only blanks are left. -/
theorem parse_of_readValue {text rest : List Char} {j : Json}
    (h : forget (readValue (skipSpace text)) = some (j, rest)) (hrest : skipSpace rest = []) :
    Json.parse text = some j := by
  obtain ⟨hlt, h⟩ := forget_eq_some h
  rw [Json.parse, h]
  dsimp only
  rw [hrest]
  rfl

/-- **A whole text that spells a value is parsed as it.** -/
theorem Spells.parse {j : Json} {text : List Char} (h : Spells j text) : parse text = some j := by
  obtain ⟨c, cs, rfl, hc, -⟩ := h.starts
  have hskip : skipSpace (c :: cs) = c :: cs := @skipSpace_blank _ [] c blank_nil hc
  have hread := h.reads [] (by simp [Closed])
  rw [List.append_nil, ← hskip] at hread
  exact parse_of_readValue hread rfl

end Json

end ApiMock
