import Mathlib.Data.List.Perm.Basic
import ApiMock.Proofs.Json.Spelling
import ApiMock.Proofs.Json.Writable
import ApiMock.Proofs.Text.Pairs
/-!
# JSON — literals of generated files

A value without floating-point numbers is spelled by its literal: parsed as
JSON, the literal is the value, with its lists in order, the entries of its
mappings in some order and the halves in its texts joined
(`spells_ofData`). A literal is in ASCII and has no character that could end
a script element or an attribute, and no line of it ends in a semicolon.
-/

namespace ApiMock

/-- A value that a JSON text can hold without a floating-point number. -/
inductive Data.Floatless : Data → Prop where
  | null : Floatless (.scalar .null)
  | bool (b : Bool) : Floatless (.scalar (.bool b))
  | int (n : Int) : Floatless (.scalar (.int n))
  | str (s : String) : Floatless (.scalar (.str s))
  | list {items : List Data} (h : ∀ d ∈ items, Floatless d) : Floatless (.list items)
  | map {es : List (Scalar × Data)} (keys : ∀ e ∈ es, ∃ name, e.1 = .str name)
      (values : ∀ e ∈ es, Floatless e.2) : Floatless (.map es)

namespace Number

/-- **What a number is written with**: digits, signs, a point and the letter of the exponent. -/
theorem forall_mem_finiteText {P : Char → Prop} {layout : Layout} {x : Binary64}
    (hdigit : ∀ c, c.isDigit = true → P c) (hmarks : ∀ c ∈ ['-', '+', '.', 'e'], P c) :
    ∀ c ∈ finiteText layout x, P c := by
  simp only [List.forall_mem_cons] at hmarks
  obtain ⟨hminus, hplus, hpoint, he, -⟩ := hmarks
  have hzero : P '0' := hdigit '0' (by decide)
  have hdigits : ∀ n, ∀ c ∈ Decimal.digitsOf n, P c :=
    fun n c hc => hdigit c (Json.isDigit_of_mem_toDigits hc)
  have hzeros : ∀ n, ∀ c ∈ List.replicate n '0', P c := by
    intro n c hc
    rw [List.eq_of_mem_replicate hc]
    exact hzero
  have htake : ∀ n k, ∀ c ∈ (Decimal.digitsOf n).take k, P c :=
    fun n k c hc => hdigits n c (List.mem_of_mem_take hc)
  have hdrop : ∀ n k, ∀ c ∈ (Decimal.digitsOf n).drop k, P c :=
    fun n k c hc => hdigits n c (List.mem_of_mem_drop hc)
  have hexponent : ∀ e, ∀ c ∈ exponentText layout e, P c := by
    intro e
    rw [exponentText]
    simp only [List.forall_mem_append]
    refine ⟨⟨?_, hzeros _⟩, hdigits _⟩
    split_ifs <;> simp [hminus, hplus]
  have hdecimal : ∀ d, ∀ c ∈ decimalText layout d, P c := by
    intro d
    rw [decimalText]
    have hfraction : ∀ c ∈ (if ((Decimal.digitsOf d.digits).drop 1).isEmpty then []
        else '.' :: (Decimal.digitsOf d.digits).drop 1), P c := by
      split_ifs
      · exact List.forall_mem_nil _
      · exact List.forall_mem_cons.mpr ⟨hpoint, hdrop _ _⟩
    split_ifs <;>
      simp only [List.forall_mem_append, List.forall_mem_cons, hpoint, hzero, he, true_and,
        List.not_mem_nil, false_implies, implies_true, and_true]
    · exact ⟨hdigits _, hzeros _⟩
    · exact ⟨htake _ _, hdrop _ _⟩
    · exact ⟨hzeros _, hdigits _⟩
    · exact ⟨⟨htake _ _, hfraction⟩, hexponent _⟩
  rw [finiteText, List.forall_mem_append]
  constructor
  · split_ifs <;> simp [hminus]
  · split_ifs
    · simp [hzero, hpoint]
    · exact hdecimal _

end Number

namespace Json

open Text (pairCount)

/-- The JSON value holds what the document value holds: lists element by
element, mappings entry by entry in some order, and texts with their halves
joined. -/
inductive Holds : Data → Json → Prop where
  | null : Holds (.scalar .null) .null
  | bool (b : Bool) : Holds (.scalar (.bool b)) (.bool b)
  | int (n : Int) : Holds (.scalar (.int n)) (.int n)
  | str (s : String) : Holds (.scalar (.str s)) (.str (joined s))
  | list {items : List Data} {js : List Json} (length : items.length = js.length)
      (h : ∀ p ∈ items.zip js, Holds p.1 p.2) : Holds (.list items) (.arr js)
  | map {es ordered : List (Scalar × Data)} {fields : List (String × Json)}
      (order : ordered.Perm es) (length : ordered.length = fields.length)
      (keys : ∀ p ∈ ordered.zip fields, ∃ name, p.1.1 = .str name ∧ p.2.1 = joined name)
      (values : ∀ p ∈ ordered.zip fields, Holds p.1.2 p.2.2) : Holds (.map es) (.obj fields)

/-! ## Texts that are safe in a script -/

/-- Characters in ASCII, none of which could end a script element or an
attribute, and no semicolon at the end of a line. -/
structure Calm (cs : List Char) : Prop where
  ascii : ∀ c ∈ cs, c.toNat < 0x80
  unmarked : ∀ c ∈ cs, ¬ IsMarkup c
  unended : pairCount ';' '\n' cs = 0
  last : cs.getLast? ≠ some ';'

namespace Calm

variable {xs ys cs : List Char}

theorem nil : Calm [] := ⟨by simp, by simp, rfl, by simp⟩

theorem append (hx : Calm xs) (hy : Calm ys) : Calm (xs ++ ys) where
  ascii c hc := (List.mem_append.mp hc).elim (hx.ascii c) (hy.ascii c)
  unmarked c hc := (List.mem_append.mp hc).elim (hx.unmarked c) (hy.unmarked c)
  unended := by
    rw [Text.pairCount_append_of_not fun h => hx.last h.1, hx.unended, hy.unended]
  last := by
    rw [List.getLast?_append]
    intro h
    rcases Option.or_eq_some_iff.mp h with h | ⟨-, h⟩
    · exact hy.last h
    · exact hx.last h

/-- Characters without a semicolon. -/
theorem of_mem (h : ∀ c ∈ cs, c.toNat < 0x80 ∧ ¬ IsMarkup c ∧ c ≠ ';') : Calm cs where
  ascii c hc := (h c hc).1
  unmarked c hc := (h c hc).2.1
  unended := by
    refine List.count_eq_zero.mpr fun hin => ?_
    exact (h ';' (List.of_mem_zip hin).1).2.2 rfl
  last := by
    intro hlast
    exact (h ';' (List.mem_of_getLast? hlast)).2.2 rfl

/-- Parts in a row. -/
theorem intercalate {sep : List Char} {parts : List (List Char)} (hsep : Calm sep)
    (h : ∀ part ∈ parts, Calm part) : Calm (List.intercalate sep parts) :=
  Sequence.intercalate_closed nil (fun _ _ hx hy => hx.append hy) hsep h

end Calm

/-! ## Guarded texts -/

/-- A text as it stands in a script. -/
def guarded (s : String) : List Char :=
  s.toList.flatMap escapeMarkup

theorem toList_guardMarkup {s : String} : (guardMarkup s).toList = guarded s := by
  rw [guardMarkup, String.toList_ofList, guarded]

theorem guarded_append {s t : String} : guarded (s ++ t) = guarded s ++ guarded t := by
  rw [guarded, String.toList_append, List.flatMap_append, guarded, guarded]

theorem guarded_intercalate {sep : String} {parts : List String} :
    guarded (String.intercalate sep parts) =
      List.intercalate (guarded sep) (parts.map guarded) := by
  rw [guarded, String.toList_intercalate, Sequence.flatMap_intercalate, List.map_map]
  rfl

/-- Layout between the parts of a collection: blanks and line breaks. -/
def Layout (cs : List Char) : Prop :=
  ∀ c ∈ cs, c = ' ' ∨ c = '\n'

namespace Layout

variable {cs : List Char}

theorem nil : Layout [] := fun _ hc => absurd hc List.not_mem_nil

theorem newline (depth : Nat) : Layout (newline depth).toList := by
  intro c hc
  rw [Json.newline, String.toList_ofList, List.mem_cons] at hc
  rcases hc with rfl | hc
  · exact .inr rfl
  · exact .inl (List.eq_of_mem_replicate hc)

theorem blank (h : Layout cs) : Blank cs := by
  intro c hc
  rcases h c hc with rfl | rfl <;> rfl

theorem calm (h : Layout cs) : Calm cs := by
  refine .of_mem fun c hc => ?_
  rcases h c hc with rfl | rfl <;> decide

theorem guarded {s : String} (h : Layout s.toList) : guarded s = s.toList := by
  refine flatMap_escapeMarkup fun c hc => ?_
  rcases h c hc with rfl | rfl <;> decide

end Layout

/-- A collection as it stands in a script: its parts in between brackets, with some layout. -/
theorem guarded_block (opening closing : String) (depth : Nat) (parts : List String) :
    ∃ lead gap trail, Layout lead ∧ Layout gap ∧ Layout trail ∧
      guarded (block opening closing depth parts) = guarded opening ++
        (lead ++ (List.intercalate (',' :: gap) (parts.map guarded) ++
          (trail ++ guarded closing))) := by
  cases parts with
  | nil =>
    refine ⟨[], [], [], .nil, .nil, .nil, ?_⟩
    have hblock : block opening closing depth [] = opening ++ closing := rfl
    rw [hblock, guarded_append]
    rfl
  | cons part parts =>
    refine ⟨(newline (depth + 1)).toList, (newline (depth + 1)).toList, (newline depth).toList,
      .newline _, .newline _, .newline _, ?_⟩
    have hblock : block opening closing depth (part :: parts) =
        opening ++ newline (depth + 1) ++
          String.intercalate ("," ++ newline (depth + 1)) (part :: parts) ++ newline depth ++
            closing := rfl
    rw [hblock]
    simp only [guarded_append, guarded_intercalate, (Layout.newline _).guarded, List.append_assoc]
    rfl

/-- A literal spells a value and is safe in a script. -/
structure Literal (j : Json) (text : List Char) : Prop where
  spells : Spells j text
  calm : Calm text

/-- A character that shows, in ASCII. -/
def Shows (c : Char) : Prop :=
  0x20 ≤ c.toNat ∧ c.toNat < 0x7f

instance (c : Char) : Decidable (Shows c) := by
  unfold Shows
  infer_instance

theorem shows_escapeUnit {n : Nat} : ∀ c ∈ escapeUnit n, Shows c := by
  have hdigit : ∀ m, Shows (Text.hexDigit (m % 16)) := by
    intro m
    have hall : ∀ m < 16, 0x20 ≤ (Text.hexDigit m).toNat ∧ (Text.hexDigit m).toNat < 0x7f := by
      decide
    exact hall _ (Nat.mod_lt m (by decide))
  have hslash : Shows '\\' ∧ Shows 'u' := by decide
  rw [escapeUnit, hex_four]
  simp only [List.forall_mem_cons, hdigit, hslash, true_and]
  exact List.forall_mem_nil _

theorem shows_escapePoint {n : Nat} : ∀ c ∈ escapePoint n, Shows c := by
  rw [escapePoint]
  split
  · rename_i l hl
    have hletter : Shows l := by
      unfold letterEscape? at hl
      split_ifs at hl <;> cases hl <;> decide
    intro c hc
    rcases List.mem_cons.mp hc with rfl | hc
    · decide
    · rw [List.mem_singleton.mp hc]
      exact hletter
  · split
    · rename_i hplain
      have hnat : (Char.ofNat n).toNat = n :=
        Text.toNat_ofNat_of_lt (by omega) (Text.not_isHalf_iff.mpr (by omega))
      intro c hc
      rw [List.mem_singleton.mp hc, Shows, hnat]
      exact hplain
    · split
      · exact shows_escapeUnit
      · intro c hc
        exact (List.mem_append.mp hc).elim (shows_escapeUnit c) (shows_escapeUnit c)

/-- What shows in a text shows in a script, where nothing is markup. -/
theorem shows_guarded {s : String} (h : ∀ c ∈ s.toList, Shows c) :
    ∀ c ∈ guarded s, Shows c ∧ ¬ IsMarkup c := by
  intro c hc
  obtain ⟨d, hd, hc⟩ := List.mem_flatMap.mp hc
  rw [escapeMarkup_eq] at hc
  split at hc
  · exact ⟨shows_escapeUnit c hc, not_isMarkup_escapeUnit c hc⟩
  · rename_i hmarkup
    obtain rfl := List.mem_singleton.mp hc
    exact ⟨h c hd, hmarkup⟩

/-- What shows has no line feed. -/
theorem notMem_guarded {s : String} (h : ∀ c ∈ s.toList, Shows c) : '\n' ∉ guarded s :=
  fun hin => absurd (shows_guarded h '\n' hin).1 (by decide)

/-- So it does not end a line. -/
theorem pairCount_guarded {s : String} {a : Char} (h : ∀ c ∈ s.toList, Shows c) :
    pairCount a '\n' (guarded s) = 0 :=
  List.count_eq_zero.mpr fun hin =>
    notMem_guarded h (List.mem_of_mem_tail (List.of_mem_zip hin).2)

/-- A text on one line that shows is calm in a script, unless it ends in a semicolon. -/
theorem calm_guarded {s : String} (h : ∀ c ∈ s.toList, Shows c)
    (hlast : (guarded s).getLast? ≠ some ';') : Calm (guarded s) where
  ascii c hc := Nat.lt_succ_of_lt (shows_guarded h c hc).1.2
  unmarked c hc := (shows_guarded h c hc).2
  unended := pairCount_guarded h
  last := hlast

theorem guarded_quote {s : String} :
    guarded (quote s) =
      '"' :: ((Text.points s.toList).flatMap (fun n => (escapePoint n).flatMap escapeMarkup) ++
        ['"']) := by
  have hquote : escapeMarkup '"' = ['"'] := rfl
  rw [guarded, quote, String.toList_ofList, List.cons_append, List.flatMap_cons,
    List.flatMap_append, List.flatMap_assoc, List.flatMap_singleton, hquote]
  rfl

theorem shows_quote {s : String} : ∀ c ∈ (quote s).toList, Shows c := by
  have hmark : Shows '"' := by decide
  intro c hc
  rw [quote, String.toList_ofList, List.cons_append, List.mem_cons, List.mem_append,
    List.mem_singleton] at hc
  rcases hc with rfl | hc | rfl
  · exact hmark
  · obtain ⟨n, -, hc⟩ := List.mem_flatMap.mp hc
    exact shows_escapePoint c hc
  · exact hmark

/-- **A quoted text is a literal** of the text, its halves joined. -/
theorem literal_quote (s : String) : Literal (.str (joined s)) (guarded (quote s)) where
  spells := by
    rw [guarded_quote]
    exact spells_text (fun n hn => (writes_escapePoint hn).guard) s
  calm := by
    refine calm_guarded shows_quote ?_
    rw [guarded_quote, ← List.cons_append, List.getLast?_concat]
    decide

/-- A word without markup and without a semicolon. -/
theorem literal_word {k : Json} {word : String} (hspells : Spells k word.toList)
    (hfree : ∀ c ∈ word.toList, c.toNat < 0x80 ∧ ¬ IsMarkup c ∧ c ≠ ';') :
    Literal k (guarded word) := by
  have hsame : guarded word = word.toList := flatMap_escapeMarkup fun c hc => (hfree c hc).2.1
  rw [hsame]
  exact ⟨hspells, .of_mem hfree⟩

theorem literal_null : Literal .null (guarded "null") :=
  literal_word spells_null (by decide)

theorem literal_bool (b : Bool) : Literal (.bool b) (guarded (if b then "true" else "false")) := by
  refine literal_word (spells_bool b) ?_
  cases b <;> decide

/-- **A whole number is a literal.** -/
theorem literal_int (n : Int) : Literal (.int n) (guarded (toString n)) := by
  refine literal_word (spells_int n) fun c hc => ?_
  have hmarks : ∀ d ∈ ['<', '>', '&', '\'', ';'], ¬ (d.isDigit = true ∨ d = '-') := by decide
  have hnumber : c.isDigit = true ∨ c = '-' := mem_toString_int hc
  refine ⟨?_, ?_, ?_⟩
  · rcases hnumber with hdigit | rfl
    · have := Text.isDigit_iff.mp hdigit
      omega
    · decide
  · rintro (rfl | rfl | rfl | rfl) <;> exact hmarks _ (by simp) hnumber
  · rintro rfl
    exact hmarks _ (by simp) hnumber

/-- Brackets and the separator are calm. -/
theorem calm_mark {c : Char} (h : c ∈ ['[', ']', '\x7b', '\x7d', ',', ':', ' ', '"']) :
    Calm [c] := by
  have hall : ∀ d ∈ ['[', ']', '\x7b', '\x7d', ',', ':', ' ', '"'],
      d.toNat < 0x80 ∧ ¬ IsMarkup d ∧ d ≠ ';' := by decide
  refine .of_mem fun d hd => ?_
  rw [List.mem_singleton.mp hd]
  exact hall c h

/-- A collection of calm parts is calm. -/
theorem calm_collection {opening closing : Char} {lead gap trail : List Char}
    {parts : List (List Char)} (hopening : Calm [opening]) (hclosing : Calm [closing])
    (hlead : Layout lead) (hgap : Layout gap) (htrail : Layout trail)
    (h : ∀ part ∈ parts, Calm part) :
    Calm (opening :: (lead ++ (List.intercalate (',' :: gap) parts ++ (trail ++ [closing])))) := by
  have hseparator : Calm (',' :: gap) := (calm_mark (by simp)).append hgap.calm
  have hparts : Calm (List.intercalate (',' :: gap) parts) := .intercalate hseparator h
  exact hopening.append (hlead.calm.append (hparts.append (htrail.calm.append hclosing)))

/-- **An array of literals is a literal.** -/
theorem literal_array {js : List Json} {parts : List String} {depth : Nat}
    (h : List.Forall₂ (fun j part => Literal j (guarded part)) js parts) :
    Literal (.arr js) (guarded (block "[" "]" depth parts)) := by
  obtain ⟨lead, gap, trail, hlead, hgap, htrail, htext⟩ := guarded_block "[" "]" depth parts
  have hspells : List.Forall₂ Spells js (parts.map guarded) :=
    List.forall₂_map_right_iff.mpr (h.imp fun _ _ hpart => hpart.spells)
  have hcalm : ∀ part ∈ parts.map guarded, Calm part := by
    intro part hpart
    obtain ⟨p, hp, rfl⟩ := List.mem_map.mp hpart
    obtain ⟨j, -, hliteral⟩ := Sequence.exists_of_mem_right h hp
    exact hliteral.calm
  have hopening : guarded "[" = ['['] := rfl
  have hclosing : guarded "]" = [']'] := rfl
  rw [htext, hopening, hclosing, List.singleton_append]
  exact ⟨spells_array hspells hlead.blank hgap.blank htrail.blank,
    calm_collection (calm_mark (by simp)) (calm_mark (by simp)) hlead hgap htrail hcalm⟩

/-- An entry of an object in a script. -/
def entryText (e : String × String) : String :=
  quote e.1 ++ ": " ++ e.2

theorem spellsEntry_guarded {e : String × Json} {part : String × String}
    (hkey : e.1 = joined part.1) (hvalue : Literal e.2 (guarded part.2)) :
    SpellsEntry e (guarded (entryText part)) := by
  have hcolon : guarded ": " = [':', ' '] := rfl
  have hread := fun rest => readText_flatMap (fun n hn => (writes_escapePoint hn).guard) part.1 rest
  refine ⟨(Text.points part.1.toList).flatMap fun n => (escapePoint n).flatMap escapeMarkup,
    guarded part.2, ?_, ?_, hvalue.spells⟩
  · rw [entryText, guarded_append, guarded_append, guarded_quote, hcolon]
    simp only [List.cons_append, List.append_assoc, List.nil_append]
  · rw [hkey]
    exact hread

/-- **An object with literals under its keys is a literal.** -/
theorem literal_object {es : List (String × Json)} {depth : Nat} {parts : List (String × String)}
    (h : List.Forall₂ (fun e part => e.1 = joined part.1 ∧ Literal e.2 (guarded part.2)) es parts) :
    Literal (.obj es) (guarded (block "\x7b" "\x7d" depth (parts.map entryText))) := by
  obtain ⟨lead, gap, trail, hlead, hgap, htrail, htext⟩ :=
    guarded_block "\x7b" "\x7d" depth (parts.map entryText)
  have hspells : List.Forall₂ SpellsEntry es ((parts.map entryText).map guarded) := by
    rw [List.forall₂_map_right_iff, List.forall₂_map_right_iff]
    exact h.imp fun e part hpart => spellsEntry_guarded hpart.1 hpart.2
  have hcalm : ∀ part ∈ (parts.map entryText).map guarded, Calm part := by
    intro part hpart
    obtain ⟨text, htext, rfl⟩ := List.mem_map.mp hpart
    obtain ⟨p, hp, rfl⟩ := List.mem_map.mp htext
    obtain ⟨e, -, -, hliteral⟩ := Sequence.exists_of_mem_right h hp
    have hmarks : guarded ": " = [':'] ++ [' '] := rfl
    have hcolon : Calm (guarded ": ") := by
      rw [hmarks]
      exact (calm_mark (by simp)).append (calm_mark (by simp))
    rw [entryText, guarded_append, guarded_append]
    exact ((literal_quote p.1).calm.append hcolon).append hliteral.calm
  have hopening : guarded "\x7b" = ['\x7b'] := rfl
  have hclosing : guarded "\x7d" = ['\x7d'] := rfl
  rw [htext, hopening, hclosing, List.singleton_append]
  exact ⟨spells_object hspells hlead.blank hgap.blank htrail.blank,
    calm_collection (calm_mark (by simp)) (calm_mark (by simp)) hlead hgap htrail hcalm⟩

/-! ## Lists of texts -/

theorem renderItems_texts (texts : List String) :
    renderItems (texts.map .str) = texts.map quote := by
  induction texts with
  | nil => rfl
  | cons t rest ih => rw [List.map_cons, renderItems, ih, List.map_cons]; rfl

/-- **A list of texts on one line** is spelled as the list of the texts, their halves joined. -/
theorem spells_texts (texts : List String) :
    Spells (.arr (texts.map fun t => .str (joined t)))
      (guarded (render (.arr (texts.map .str)))) := by
  have hparts : List.Forall₂ Spells (texts.map fun t => .str (joined t))
      ((texts.map quote).map guarded) := by
    rw [List.forall₂_map_left_iff, List.forall₂_map_right_iff, List.forall₂_map_right_iff,
      List.forall₂_same]
    exact fun t _ => (literal_quote t).spells
  have hopening : guarded "[" = ['['] := rfl
  have hclosing : guarded "]" = [']'] := rfl
  have hgap : guarded ", " = [',', ' '] := rfl
  have hspells := spells_array hparts blank_nil blank_space blank_nil
  rw [render, renderItems_texts, guarded_append, guarded_append, guarded_intercalate, hopening,
    hclosing, hgap]
  exact hspells

/-- A list of texts shows. -/
theorem shows_texts (texts : List String) :
    ∀ c ∈ (render (.arr (texts.map .str))).toList, Shows c := by
  have hmarks : (∀ c ∈ "[".toList, Shows c) ∧ (∀ c ∈ "]".toList, Shows c) ∧
      ∀ c ∈ ", ".toList, Shows c := by decide
  obtain ⟨hopening, hclosing, hsep⟩ := hmarks
  have hparts : ∀ part ∈ (texts.map quote).map String.toList, ∀ c ∈ part, Shows c := by
    intro part hpart
    obtain ⟨text, htext, rfl⟩ := List.mem_map.mp hpart
    obtain ⟨t, -, rfl⟩ := List.mem_map.mp htext
    exact shows_quote
  have hrow : ∀ c ∈ List.intercalate ", ".toList ((texts.map quote).map String.toList), Shows c :=
    @Sequence.intercalate_closed _ (fun cs => ∀ c ∈ cs, Shows c) _ _ (List.forall_mem_nil _)
      (fun _ _ hx hy => List.forall_mem_append.mpr ⟨hx, hy⟩) hsep hparts
  intro c hc
  rw [render, renderItems_texts, String.toList_append, String.toList_append,
    String.toList_intercalate, List.mem_append, List.mem_append] at hc
  rcases hc with (hc | hc) | hc
  · exact hopening c hc
  · exact hrow c hc
  · exact hclosing c hc

/-! ## Values of a document -/

/-- The elements of a list and the entries of a mapping, as they are written. -/
theorem prettyItems_eq_map {depth : Nat} {js : List Json} :
    prettyItems depth js = js.map (prettyAt depth) := by
  induction js with
  | nil => rw [prettyItems, List.map_nil]
  | cons j rest ih => rw [prettyItems, ih, List.map_cons]

theorem prettyEntries_eq_map {depth : Nat} {es : List (String × Json)} :
    prettyEntries depth es = (es.map fun e => (e.1, e.2.prettyAt depth)).map entryText := by
  induction es with
  | nil => rw [prettyEntries]; rfl
  | cons e rest ih => rw [prettyEntries, ih]; rfl

/-- The value is written as a literal of what the document value holds, at any depth. -/
def Written (d : Data) (j : Json) : Prop :=
  ∃ k, Holds d k ∧ ∀ depth, Literal k (guarded (j.prettyAt depth))

theorem forall₂_of_ofItems {sorted : Bool} {items : List Data} {js : List Json}
    (h : ofItems sorted items = .ok js) :
    List.Forall₂ (fun d j => ofData sorted d = .ok j) items js := by
  induction items generalizing js with
  | nil =>
    cases h
    exact .nil
  | cons d rest ih =>
    obtain ⟨j, hj, h⟩ := Sequence.of_bind_ok h
    obtain ⟨others, hothers, h⟩ := Sequence.of_bind_ok h
    cases h
    exact .cons hj (ih hothers)

theorem Written.list {items : List Data} {js : List Json}
    (h : List.Forall₂ Written items js) : Written (.list items) (.arr js) := by
  have hparts : ∃ ks, List.Forall₂ Holds items ks ∧
      ∀ depth, List.Forall₂ (fun k part => Literal k (guarded part)) ks
        (js.map (prettyAt depth)) := by
    induction h with
    | nil => exact ⟨[], .nil, fun _ => .nil⟩
    | cons hj _ ih =>
      obtain ⟨k, hk, hliteral⟩ := hj
      obtain ⟨ks, hks, hliterals⟩ := ih
      exact ⟨k :: ks, .cons hk hks, fun depth => .cons (hliteral depth) (hliterals depth)⟩
  obtain ⟨ks, hks, hliterals⟩ := hparts
  obtain ⟨hlength, hholds⟩ := List.forall₂_iff_zip.mp hks
  refine ⟨.arr ks, .list hlength fun p hp => hholds hp, fun depth => ?_⟩
  rw [prettyAt, prettyItems_eq_map]
  exact literal_array (hliterals (depth + 1))

theorem Written.map {es ordered : List (Scalar × Data)} {fields : List (String × Json)}
    (horder : ordered.Perm es)
    (h : List.Forall₂ (fun e f => e.1 = .str f.1 ∧ Written e.2 f.2) ordered fields) :
    Written (.map es) (.obj fields) := by
  have hparts : ∃ ks : List (String × Json),
      List.Forall₂ (fun e k => (∃ name, e.1 = .str name ∧ k.1 = joined name) ∧ Holds e.2 k.2)
        ordered ks ∧
      ∀ depth, List.Forall₂ (fun k part => k.1 = joined part.1 ∧ Literal k.2 (guarded part.2)) ks
        (fields.map fun f => (f.1, f.2.prettyAt depth)) := by
    induction h generalizing es with
    | nil => exact ⟨[], .nil, fun _ => .nil⟩
    | @cons e f ordered fields hf _ ih =>
      obtain ⟨hkey, k, hk, hliteral⟩ := hf
      obtain ⟨ks, hks, hliterals⟩ := ih (.refl _)
      exact ⟨(joined f.1, k) :: ks, .cons ⟨⟨f.1, hkey, rfl⟩, hk⟩ hks,
        fun depth => .cons ⟨rfl, hliteral depth⟩ (hliterals depth)⟩
  obtain ⟨ks, hks, hliterals⟩ := hparts
  obtain ⟨hlength, hholds⟩ := List.forall₂_iff_zip.mp hks
  refine ⟨.obj ks, .map horder hlength (fun p hp => (hholds hp).1) fun p hp => (hholds hp).2,
    fun depth => ?_⟩
  rw [prettyAt, prettyEntries_eq_map]
  exact literal_object (hliterals (depth + 1))

/-- The entries of an object are those of the mapping in some order. -/
theorem exists_ordered {es : List (Scalar × Data)} {fields : List (String × Json)}
    (keys : ∀ e ∈ es, ∃ name, e.1 = .str name) (h : keyed true (ofEntries true es) = .ok fields) :
    ∃ ordered : List (Scalar × Data), ordered.Perm es ∧
      List.Forall₂ (fun e f => e.1 = .str f.1 ∧ ofData true e.2 = .ok f.2) ordered fields := by
  obtain ⟨sorted, hsorted, hfields⟩ := Sequence.of_bind_ok h
  have hperm := (of_sortEntries hsorted).2
  rw [ofEntries_eq_map] at hperm
  -- what is sorted are entries with their values written, so it comes from entries in some order
  have hbeside : List.Forall₂ (fun written e => written = (e.1, ofData true e.2))
      (es.map fun e => (e.1, ofData true e.2)) es :=
    List.forall₂_map_left_iff.mpr (List.forall₂_same.mpr fun _ _ => rfl)
  obtain ⟨ordered, hordered, horder⟩ := List.perm_comp_forall₂ hperm hbeside
  have hsame : sorted = ordered.map fun e => (e.1, ofData true e.2) := by
    rw [← Sequence.map_eq_map hordered fun written e (h : id written = _) => h, List.map_id]
  rw [hsame] at hfields
  have hmade := List.forall₂_map_left_iff.mp (Sequence.forall₂_of_mapM hfields)
  obtain ⟨hlength, hmade⟩ := List.forall₂_iff_zip.mp hmade
  refine ⟨ordered, horder, List.forall₂_iff_zip.mpr ⟨hlength, ?_⟩⟩
  intro e f hp
  obtain ⟨name, hname⟩ := keys e (horder.mem_iff.mp (List.of_mem_zip hp).1)
  obtain ⟨key, hkey, h⟩ := Sequence.of_bind_ok (hmade hp)
  obtain ⟨j, hj, h⟩ := Sequence.of_bind_ok h
  rw [hname] at hkey ⊢
  cases hkey
  cases h
  exact ⟨rfl, hj⟩

/-- **What a value without floating-point numbers is written as**, if it can be written. -/
theorem written_of_ofData {d : Data} {j : Json} (hd : d.Floatless) (h : ofData true d = .ok j) :
    Written d j := by
  induction hd generalizing j with
  | null =>
    cases h
    exact ⟨.null, .null, fun _ => literal_null⟩
  | bool b =>
    cases h
    exact ⟨.bool b, .bool b, fun _ => literal_bool b⟩
  | int n =>
    obtain ⟨-, rfl⟩ : Number.hasText n = true ∧ j = .int n := by
      rw [ofData, ofScalar] at h
      split at h
      · rename_i hn
        cases h
        exact ⟨hn, rfl⟩
      · cases h
    exact ⟨.int n, .int n, fun _ => literal_int n⟩
  | str s =>
    cases h
    exact ⟨.str (joined s), .str s, fun _ => literal_quote s⟩
  | @list items _ ih =>
    rw [ofData] at h
    obtain ⟨js, hjs, rfl⟩ := Sequence.of_map_ok h
    have hbeside := List.forall₂_iff_zip.mp (forall₂_of_ofItems hjs)
    refine .list (List.forall₂_iff_zip.mpr ⟨hbeside.1, fun hp => ?_⟩)
    exact ih _ (List.of_mem_zip hp).1 (hbeside.2 hp)
  | @map es keys _ ih =>
    rw [ofData] at h
    obtain ⟨fields, hfields, rfl⟩ := Sequence.of_map_ok h
    obtain ⟨ordered, horder, hordered⟩ := exists_ordered keys hfields
    obtain ⟨hlength, hbeside⟩ := List.forall₂_iff_zip.mp hordered
    refine .map horder (List.forall₂_iff_zip.mpr ⟨hlength, fun hp => ⟨(hbeside hp).1, ?_⟩⟩)
    exact ih _ (horder.mem_iff.mp (List.of_mem_zip hp).1) (hbeside hp).2

end Json

end ApiMock
