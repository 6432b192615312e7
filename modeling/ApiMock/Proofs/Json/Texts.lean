import Mathlib.Data.List.Forall2
import Mathlib.Tactic.SplitIfs
import ApiMock.Json.Encode
import ApiMock.Json.Reader
import ApiMock.Proofs.Text.Characters
import ApiMock.Proofs.TypeScript.Quoted
/-!
# JSON — texts, written and read

A code point can be written in several ways: as it stands, by a letter, or
in sixteen-bit units. `readText` reads any of them, up to the closing quote.
Where two halves of a character are written next to each other it reads the
character, so a text comes back as it was with its halves joined
(`readText_written`). A text of characters has no halves and is its own
joined text.
-/

namespace ApiMock

namespace Json

open Text (hex hexDigit hexValue? hexValue?_hexDigit not_half points points_lt ofPoint ofChars
  toNat_lt)
open TypeScript (unitsOfPoint)

/-! ## Sixteen-bit units -/

/-- Four digits stand for the lowest sixteen bits. -/
theorem hex_four {n : Nat} : hex 4 n =
    [hexDigit (n / 4096 % 16), hexDigit (n / 256 % 16), hexDigit (n / 16 % 16),
      hexDigit (n % 16)] := by
  have hplaces : (List.range 4).reverse = [3, 2, 1, 0] := rfl
  rw [hex, hplaces]
  simp only [Nat.shiftRight_eq_div_pow, List.map_cons, List.map_nil, Nat.mul_zero, Nat.pow_zero,
    Nat.div_one]

theorem unitOf?_hexDigits {n : Nat} (h : n < 65536) :
    unitOf? [hexDigit (n / 4096 % 16), hexDigit (n / 256 % 16), hexDigit (n / 16 % 16),
      hexDigit (n % 16)] = some n := by
  have hdigit : ∀ m, hexValue? (hexDigit (m % 16)) = some (m % 16) :=
    fun m => hexValue?_hexDigit (Nat.mod_lt m (by decide))
  simp only [unitOf?, hdigit, Option.bind_eq_bind, Option.bind_some, Option.pure_def]
  congr 1
  omega

/-- The character that two halves make up. -/
def ofHalves (high low : Nat) : Nat :=
  0x10000 + (high - 0xd800) * 0x400 + (low - 0xdc00)

/-- The two halves of a character above the basic plane make it up. -/
theorem ofHalves_split {n : Nat} (h : 0x10000 ≤ n) :
    ofHalves (0xd800 + (n - 0x10000) / 0x400) (0xdc00 + (n - 0x10000) % 0x400) = n := by
  unfold ofHalves
  omega

/-- Code points with every two halves that meet made one character. -/
def joinHalves : List Nat → List Nat
  | high :: low :: rest =>
    if isHighHalf high && isLowHalf low then ofHalves high low :: joinHalves rest
    else high :: joinHalves (low :: rest)
  | ns => ns

/-- The ways of writing a code point. -/
inductive Writes : Nat → List Char → Prop where
  | plain (c : Char) (hcontrol : 0x20 ≤ c.toNat) (hquote : c ≠ '"') (hslash : c ≠ '\\') :
    Writes c.toNat [c]
  | letter (l c : Char) (h : letterValue? l = some c) : Writes c.toNat ['\\', l]
  | unit {n : Nat} (h : n < 0x10000) : Writes n (escapeUnit n)
  | halves {n : Nat} (hlow : 0x10000 ≤ n) (hhigh : n < 0x110000) :
    Writes n (escapeUnit (0xd800 + (n - 0x10000) / 0x400) ++
      escapeUnit (0xdc00 + (n - 0x10000) % 0x400))

/-- What a reader says, without the proof that it went on. -/
def forget {α : Type} {s : List Char} (r : Option (α × Shorter s)) : Option (α × List Char) :=
  r.map fun x => (x.1, x.2.1)

/-- What follows does not make one character with `n`: it starts with no
unit, or with one that is not the second half of it. -/
def Apart (n : Nat) (rest : List Char) : Prop :=
  ∀ more, rest = '\\' :: 'u' :: more →
    ∃ u tail, more = hex 4 u ++ tail ∧ u < 0x10000 ∧
      ¬ (isHighHalf n = true ∧ isLowHalf u = true)

theorem readPoint_unit {n : Nat} (h : n < 0x10000) {rest : List Char} (hrest : Apart n rest) :
    forget (readPoint (escapeUnit n ++ rest)) = some (n, rest) := by
  rw [escapeUnit, hex_four]
  by_cases hunit : ∃ more, rest = '\\' :: 'u' :: more
  · obtain ⟨more, rfl⟩ := hunit
    obtain ⟨u, tail, rfl, hu, hapart⟩ := hrest more rfl
    rw [hex_four]
    simp only [List.cons_append, List.nil_append]
    rw [readPoint]
    simp only [unitOf?_hexDigits h, unitOf?_hexDigits hu]
    have hnot : ¬ (isHighHalf n && isLowHalf u) = true := by rwa [Bool.and_eq_true]
    simp only [Option.bind_eq_bind, Option.bind_some, if_neg hnot]
    rfl
  · have hno : ∀ more, rest ≠ '\\' :: 'u' :: more := fun more heq => hunit ⟨more, heq⟩
    simp only [List.cons_append, List.nil_append]
    rw [readPoint]
    · simp only [unitOf?_hexDigits h]
      rfl
    · exact fun e f g h more heq => hno _ heq

theorem readPoint_halves {high low : Nat} (h : high < 0x10000) (hlow : low < 0x10000)
    (hhalves : isHighHalf high = true ∧ isLowHalf low = true) {rest : List Char} :
    forget (readPoint (escapeUnit high ++ (escapeUnit low ++ rest))) =
      some (ofHalves high low, rest) := by
  rw [escapeUnit, escapeUnit, hex_four, hex_four]
  simp only [List.cons_append, List.nil_append]
  rw [readPoint]
  simp only [unitOf?_hexDigits h, unitOf?_hexDigits hlow, Option.bind_eq_bind, Option.bind_some]
  rw [if_pos (by rwa [Bool.and_eq_true])]
  rfl

/-- A character that stands for itself is read, whatever follows. -/
theorem readPoint_plain {c : Char} (hcontrol : 0x20 ≤ c.toNat) (hslash : c ≠ '\\')
    {rest : List Char} : forget (readPoint (c :: rest)) = some (c.toNat, rest) := by
  have hread : ¬ (c.toNat < 0x20 || c = '\\') = true := by
    rw [Bool.or_eq_true, decide_eq_true_iff, decide_eq_true_iff]
    exact fun h => h.elim (Nat.not_lt.mpr hcontrol) hslash
  rw [readPoint]
  · rw [if_neg hread]
    rfl
  · exact fun a b c d e f g h more heq _ => hslash heq
  · exact fun a b c d more heq _ => hslash heq
  · exact fun l more heq _ => hslash heq

/-- So is one that a letter stands for. -/
theorem readPoint_letter {l c : Char} (h : letterValue? l = some c) {rest : List Char} :
    forget (readPoint ('\\' :: l :: rest)) = some (c.toNat, rest) := by
  have hl : l ≠ 'u' := by
    rintro rfl
    cases h
  rw [readPoint]
  · rw [h]
    rfl
  · exact fun a b c d e f g h more heq _ => hl heq
  · exact fun a b c d more heq _ => hl heq

/-- A code point that is written in any way is read, if what follows is apart from it. -/
theorem readPoint_writes {n : Nat} {piece rest : List Char} (h : Writes n piece)
    (hrest : Apart n rest) : forget (readPoint (piece ++ rest)) = some (n, rest) := by
  cases h with
  | plain c hcontrol hquote hslash => exact readPoint_plain hcontrol hslash
  | letter l c h => exact readPoint_letter h
  | unit h => exact readPoint_unit h hrest
  | @halves n hlow hhigh =>
    rw [List.append_assoc, readPoint_halves, ofHalves_split hlow]
    · omega
    · omega
    · simp only [isHighHalf, isLowHalf, Bool.and_eq_true, decide_eq_true_iff]
      omega

/-! ## Whole texts -/

variable {n : Nat} {piece rest more : List Char}

/-- A half of a character is written in one way only. -/
theorem Writes.eq_unit (h : Writes n piece) (hhalf : 0xd800 ≤ n ∧ n ≤ 0xdfff) :
    piece = escapeUnit n := by
  cases h with
  | plain c => have := not_half c; omega
  | letter l c => have := not_half c; omega
  | unit => rfl
  | halves hlow => omega

/-- No way of writing a code point starts with a quote. -/
theorem Writes.head (h : Writes n piece) : ∃ c cs, piece = c :: cs ∧ c ≠ '"' := by
  cases h with
  | plain c hcontrol hquote hslash => exact ⟨c, [], rfl, hquote⟩
  | letter l c h => exact ⟨'\\', [l], rfl, by decide⟩
  | unit h => exact ⟨'\\', _, rfl, by decide⟩
  | halves hlow hhigh => exact ⟨'\\', _, rfl, by decide⟩

/-- Two code points are apart unless they are the halves of a character. -/
theorem Writes.apart {next : Nat} (h : Writes next piece)
    (hhalves : ¬ (isHighHalf n = true ∧ isLowHalf next = true)) : Apart n (piece ++ rest) := by
  intro more heq
  cases h with
  | plain c hcontrol hquote hslash =>
    obtain ⟨hc, -⟩ := List.cons.inj heq
    exact absurd hc hslash
  | letter l c h =>
    obtain ⟨-, htail⟩ := List.cons.inj heq
    obtain ⟨rfl, -⟩ := List.cons.inj htail
    cases h
  | unit h =>
    obtain ⟨-, htail⟩ := List.cons.inj heq
    obtain ⟨-, rfl⟩ := List.cons.inj htail
    exact ⟨next, rest, rfl, h, hhalves⟩
  | halves hlow hhigh =>
    -- the first of the two units is a first half
    obtain ⟨-, htail⟩ := List.cons.inj heq
    obtain ⟨-, rfl⟩ := List.cons.inj htail
    refine ⟨0xd800 + (next - 0x10000) / 0x400, _, List.append_assoc _ _ _, by omega, ?_⟩
    rintro ⟨-, hlow'⟩
    simp only [isLowHalf, Bool.and_eq_true, decide_eq_true_iff] at hlow'
    omega

theorem apart_quote : Apart n ('"' :: rest) := by
  intro more heq
  obtain ⟨hquote, -⟩ := List.cons.inj heq
  cases hquote

theorem forget_eq_some {α : Type} {s : List Char} {r : Option (α × Shorter s)} {a : α}
    {more : List Char} (h : forget r = some (a, more)) : ∃ hlt, r = some (a, ⟨more, hlt⟩) := by
  match r, h with
  | some (a, ⟨more, hlt⟩), rfl => exact ⟨hlt, rfl⟩

/-- One code point is read, and then the others. -/
theorem readText_step {s cs : List Char} {c : Char} (hc : s.head? = some c) (hquote : c ≠ '"')
    (hpoint : forget (readPoint s) = some (n, more))
    (hmore : forget (readText more) = some (cs, rest)) :
    forget (readText s) = some (ofPoint n ++ cs, rest) := by
  obtain ⟨hlt, hpoint⟩ := forget_eq_some hpoint
  obtain ⟨hlt', hmore⟩ := forget_eq_some hmore
  rw [readText]
  · rw [hpoint]
    dsimp only
    rw [hmore]
    rfl
  · rintro tail rfl
    cases hc
    exact hquote rfl

/-- **A text is read as it was written, its halves joined**, up to the closing quote. -/
theorem readText_written {ns : List Nat} {pieces : List (List Char)}
    (h : List.Forall₂ Writes ns pieces) (rest : List Char) :
    forget (readText (pieces.flatten ++ '"' :: rest)) =
      some ((joinHalves ns).flatMap ofPoint, rest) := by
  fun_induction joinHalves ns generalizing pieces with
  | case1 high low ns hhalves ih =>
    rw [Bool.and_eq_true] at hhalves
    obtain ⟨first, others, hfirst, hothers, rfl⟩ := List.forall₂_cons_left_iff.mp h
    obtain ⟨second, later, hsecond, hlater, rfl⟩ := List.forall₂_cons_left_iff.mp hothers
    have hhigh : 0xd800 ≤ high ∧ high < 0xdc00 := by simpa [isHighHalf] using hhalves.1
    have hlow : 0xdc00 ≤ low ∧ low < 0xe000 := by simpa [isLowHalf] using hhalves.2
    obtain rfl := hfirst.eq_unit (by omega)
    obtain rfl := hsecond.eq_unit (by omega)
    have htext : (escapeUnit high :: escapeUnit low :: later).flatten ++ '"' :: rest =
        escapeUnit high ++ (escapeUnit low ++ (later.flatten ++ '"' :: rest)) := by
      simp only [List.flatten_cons, List.append_assoc]
    rw [htext, List.flatMap_cons]
    exact readText_step rfl (by decide) (readPoint_halves (by omega) (by omega) hhalves) (ih hlater)
  | case2 n next ns hhalves ih =>
    rw [Bool.and_eq_true] at hhalves
    obtain ⟨first, others, hfirst, hothers, rfl⟩ := List.forall₂_cons_left_iff.mp h
    obtain ⟨c, cs, rfl, hc⟩ := hfirst.head
    have happart : Apart n (others.flatten ++ '"' :: rest) := by
      obtain ⟨second, later, hsecond, -, rfl⟩ := List.forall₂_cons_left_iff.mp hothers
      rw [List.flatten_cons, List.append_assoc]
      exact hsecond.apart hhalves
    rw [List.flatten_cons, List.append_assoc, List.flatMap_cons]
    exact readText_step rfl hc (readPoint_writes hfirst happart) (ih hothers)
  | case3 ns hshort =>
    cases h with
    | nil =>
      rw [List.flatten_nil, List.nil_append, readText]
      rfl
    | @cons n piece ns others hfirst hothers =>
      obtain ⟨c, cs, rfl, hc⟩ := hfirst.head
      cases hothers with
      | nil =>
        have hend : forget (readText ('"' :: rest)) = some ([], rest) := by
          rw [readText]
          rfl
        rw [List.flatten_cons, List.flatten_nil, List.append_nil, List.flatMap_cons]
        exact readText_step rfl hc (readPoint_writes hfirst apart_quote) hend
      | cons _ _ => exact absurd rfl (hshort _ _ _)

/-! ## Joined texts -/

/-- A text with every two halves that meet made one character. -/
def joined (s : String) : String :=
  String.ofList ((joinHalves (points s.toList)).flatMap ofPoint)

/-- A text in which no two halves meet. -/
def Whole (s : String) : Prop :=
  ∃ ns : List Nat, (∀ n ∈ ns, n < 0x110000) ∧
    List.IsChain (fun n next => ¬ (isHighHalf n = true ∧ isLowHalf next = true)) ns ∧
    s = String.ofList (ns.flatMap ofPoint)

theorem joinHalves_of_isChain {ns : List Nat}
    (h : List.IsChain (fun n next => ¬ (isHighHalf n = true ∧ isLowHalf next = true)) ns) :
    joinHalves ns = ns := by
  fun_induction joinHalves ns with
  | case1 high low ns hhalves ih =>
    rw [Bool.and_eq_true] at hhalves
    exact absurd hhalves h.rel
  | case2 n next ns hhalves ih => rw [ih (List.isChain_cons_cons.mp h).2]
  | case3 ns hshort => rfl

/-- **A text in which no two halves meet is its own joined text.** -/
theorem joined_of_whole {s : String} (h : Whole s) : joined s = s := by
  obtain ⟨ns, hns, hchain, rfl⟩ := h
  rw [joined, String.toList_ofList, Text.points_flatMap_ofPoint hns, joinHalves_of_isChain hchain]

/-- A text of characters is whole. -/
theorem whole_ofChars (cs : List Char) : Whole (String.ofList (ofChars cs)) := by
  refine ⟨cs.map Char.toNat, ?_, ?_, ?_⟩
  · intro n hn
    obtain ⟨c, -, rfl⟩ := List.mem_map.mp hn
    exact toNat_lt c
  · refine (List.pairwise_map.mpr (List.pairwise_of_forall fun c d => ?_)).isChain
    rintro ⟨hhigh, -⟩
    simp only [isHighHalf, Bool.and_eq_true, decide_eq_true_iff] at hhigh
    have := not_half c
    omega
  · rw [ofChars, List.flatMap_map]

/-- A character of ASCII is kept as it is. -/
theorem ofPoint_of_ascii {c : Char} (h : c.toNat < 0x80) : ofPoint c.toNat = [c] := by
  have hhalf : Text.isHalf c.toNat = false := Text.not_isHalf_iff.mpr (.inl (by omega))
  have hreserved : Text.isReserved c = false := by
    rw [Text.isReserved, Bool.and_eq_false_iff]
    exact .inl (decide_eq_false (by omega))
  rw [ofPoint, hhalf, Char.ofNat_toNat, hreserved]
  rfl

/-- So is a text of them. -/
theorem ofChars_of_ascii {cs : List Char} (h : ∀ c ∈ cs, c.toNat < 0x80) : ofChars cs = cs := by
  have hsingles : cs.flatMap (fun c => ofPoint c.toNat) = cs.flatMap (fun c => [c]) :=
    List.flatMap_congr fun c hc => ofPoint_of_ascii (h c hc)
  rw [ofChars, hsingles, List.flatMap_singleton']

/-- A text of ASCII characters is whole. -/
theorem whole_of_ascii {s : String} (h : ∀ c ∈ s.toList, c.toNat < 0x80) : Whole s := by
  have hwhole := whole_ofChars s.toList
  rwa [ofChars_of_ascii h, String.ofList_toList] at hwhole

/-! ## The units of a text -/

/-- The units of a text. -/
def textUnits (s : String) : List Nat :=
  (points s.toList).flatMap unitsOfPoint

/-- Two halves have the units of the character that they make up. -/
theorem unitsOfPoint_ofHalves {high low : Nat} (hhigh : isHighHalf high = true)
    (hlow : isLowHalf low = true) :
    ofHalves high low < 0x110000 ∧
      unitsOfPoint (ofHalves high low) = unitsOfPoint high ++ unitsOfPoint low := by
  have hhigh : 0xd800 ≤ high ∧ high < 0xdc00 := by simpa [isHighHalf] using hhigh
  have hlow : 0xdc00 ≤ low ∧ low < 0xe000 := by simpa [isLowHalf] using hlow
  have hfirst : unitsOfPoint high = [high] := if_pos (by omega)
  have hsecond : unitsOfPoint low = [low] := if_pos (by omega)
  have hrange : 0x10000 ≤ ofHalves high low ∧ ofHalves high low < 0x110000 := by
    unfold ofHalves
    omega
  have hsplit : 0xd800 + (ofHalves high low - 0x10000) / 0x400 = high ∧
      0xdc00 + (ofHalves high low - 0x10000) % 0x400 = low := by
    unfold ofHalves
    omega
  refine ⟨hrange.2, ?_⟩
  rw [hfirst, hsecond, unitsOfPoint, if_neg (Nat.not_lt.mpr hrange.1), hsplit.1, hsplit.2,
    List.singleton_append]

/-- Joining halves keeps the units of points. -/
theorem units_joinHalves {ns : List Nat} (h : ∀ n ∈ ns, n < 0x110000) :
    (∀ n ∈ joinHalves ns, n < 0x110000) ∧
      (joinHalves ns).flatMap unitsOfPoint = ns.flatMap unitsOfPoint := by
  fun_induction joinHalves ns with
  | case1 high low ns hhalves ih =>
    rw [Bool.and_eq_true] at hhalves
    obtain ⟨hpoint, hpair⟩ := unitsOfPoint_ofHalves hhalves.1 hhalves.2
    obtain ⟨-, hrest⟩ := List.forall_mem_cons.mp h
    obtain ⟨hlt, hunits⟩ := ih (List.forall_mem_cons.mp hrest).2
    refine ⟨List.forall_mem_cons.mpr ⟨hpoint, hlt⟩, ?_⟩
    rw [List.flatMap_cons, hpair, hunits, List.flatMap_cons, List.flatMap_cons,
      List.append_assoc]
  | case2 n next ns hhalves ih =>
    obtain ⟨hn, hrest⟩ := List.forall_mem_cons.mp h
    obtain ⟨hlt, hunits⟩ := ih hrest
    refine ⟨List.forall_mem_cons.mpr ⟨hn, hlt⟩, ?_⟩
    rw [List.flatMap_cons, hunits, ← List.flatMap_cons]
  | case3 ns hshort => exact ⟨h, rfl⟩

/-- **Joining halves keeps the units of a text.** -/
theorem textUnits_joined (s : String) : textUnits (joined s) = textUnits s := by
  obtain ⟨hlt, hunits⟩ := units_joinHalves (@points_lt s.toList)
  rw [textUnits, joined, String.toList_ofList, Text.points_flatMap_ofPoint hlt, hunits, textUnits]

/-! ## Escapes -/

/-- A letter behind a backslash stands for what it was written for. -/
theorem letterValue?_letterEscape? {c l : Char} (h : letterEscape? c = some l) :
    letterValue? l = some c := by
  have hchar : ∀ n, c.toNat = n → c = Char.ofNat n := by
    rintro n rfl
    exact (Char.ofNat_toNat c).symm
  unfold letterEscape? at h
  split_ifs at h with hquote hslash hfeed hreturn htab hback hform <;> cases h
  · rw [hquote]; rfl
  · rw [hslash]; rfl
  · rw [hfeed]; rfl
  · rw [hreturn]; rfl
  · rw [htab]; rfl
  · rw [hchar 8 hback]; rfl
  · rw [hchar 12 hform]; rfl

/-- What has a letter is a code point of its own. -/
theorem toNat_of_letterEscape? {l : Char} (h : letterEscape? (Char.ofNat n) = some l) :
    (Char.ofNat n).toNat = n := by
  by_cases hv : n.isValidChar
  · rw [Char.ofNat, dif_pos hv]
    rfl
  · rw [Char.ofNat, dif_neg hv] at h
    cases h

theorem writes_escapePoint (hn : n < 0x110000) : Writes n (escapePoint n) := by
  rw [escapePoint]
  split
  · rename_i l hl
    rw [← toNat_of_letterEscape? hl]
    exact .letter l _ (letterValue?_letterEscape? hl)
  · rename_i hl
    split
    · rename_i hplain
      have hnat : (Char.ofNat n).toNat = n :=
        Text.toNat_ofNat_of_lt hn (Text.not_isHalf_iff.mpr (by omega))
      have hquote : Char.ofNat n ≠ '"' := fun h => by rw [h] at hl; cases hl
      have hslash : Char.ofNat n ≠ '\\' := fun h => by rw [h] at hl; cases hl
      have hwrites := Writes.plain (Char.ofNat n) (by omega) hquote hslash
      rwa [hnat] at hwrites
    · split
      · rename_i hunit
        exact .unit hunit
      · rename_i hbeyond
        exact .halves (by omega) hn

/-- A character that is written as an escape inside a script. -/
def IsMarkup (c : Char) : Prop :=
  c = '<' ∨ c = '>' ∨ c = '&' ∨ c = '\''

instance : DecidablePred IsMarkup := fun c => by unfold IsMarkup; infer_instance

theorem escapeMarkup_eq {c : Char} :
    escapeMarkup c = if IsMarkup c then escapeUnit c.toNat else [c] := by
  have hiff : (c = '<' || c = '>' || c = '&' || c = '\'') = true ↔ IsMarkup c := by
    simp only [IsMarkup, Bool.or_eq_true, decide_eq_true_iff, or_assoc]
  rw [escapeMarkup]
  exact if_congr hiff rfl rfl

/-- Text without such characters stays as it is. -/
theorem flatMap_escapeMarkup {cs : List Char} (h : ∀ c ∈ cs, ¬ IsMarkup c) :
    cs.flatMap escapeMarkup = cs := by
  induction cs with
  | nil => rfl
  | cons c rest ih =>
    obtain ⟨hc, hrest⟩ := List.forall_mem_cons.mp h
    rw [List.flatMap_cons, escapeMarkup_eq, if_neg hc, ih hrest]
    rfl

theorem not_isMarkup_escapeUnit : ∀ c ∈ escapeUnit n, ¬ IsMarkup c := by
  have hdigit : ∀ m, ¬ IsMarkup (hexDigit (m % 16)) := by
    intro m
    have hall : ∀ m < 16, ¬ IsMarkup (hexDigit m) := by decide
    exact hall _ (Nat.mod_lt m (by decide))
  rw [escapeUnit, hex_four]
  simp only [List.forall_mem_cons, hdigit, not_false_eq_true, true_and]
  decide

/-- A way of writing a code point is one still when its text is made safe for a script. -/
theorem Writes.guard (h : Writes n piece) : Writes n (piece.flatMap escapeMarkup) := by
  cases h with
  | plain c hcontrol hquote hslash =>
    rw [List.flatMap_singleton, escapeMarkup_eq]
    split
    · rename_i hmarkup
      refine .unit ?_
      rcases hmarkup with rfl | rfl | rfl | rfl <;> decide
    · exact .plain c hcontrol hquote hslash
  | letter l c h =>
    rw [flatMap_escapeMarkup]
    · exact .letter l c h
    · have hl : ¬ IsMarkup l := by
        rintro (rfl | rfl | rfl | rfl) <;> cases h
      simpa using ⟨by decide, hl⟩
  | unit h =>
    rw [flatMap_escapeMarkup not_isMarkup_escapeUnit]
    exact .unit h
  | halves hlow hhigh =>
    rw [List.flatMap_append, flatMap_escapeMarkup not_isMarkup_escapeUnit,
      flatMap_escapeMarkup not_isMarkup_escapeUnit]
    exact .halves hlow hhigh

/-- **Whatever way a text is written in between quotes**, it is read joined. -/
theorem readText_flatMap {write : Nat → List Char} (hwrite : ∀ n < 0x110000, Writes n (write n))
    (s : String) (rest : List Char) :
    forget (readText ((points s.toList).flatMap write ++ '"' :: rest)) =
      some ((joined s).toList, rest) := by
  have hpieces : List.Forall₂ Writes (points s.toList) ((points s.toList).map write) := by
    rw [List.forall₂_map_right_iff, List.forall₂_same]
    exact fun n hn => hwrite n (points_lt n hn)
  rw [List.flatMap_def, readText_written hpieces, joined, String.toList_ofList]

end Json

end ApiMock
