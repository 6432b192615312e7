import ApiMock.Proofs.Text.Characters
import ApiMock.Text.Quoted
import Mathlib.Tactic.Ring
/-!
# Text — quoted texts, told apart

A text between quotes ends where its closing quote stands, whatever
follows, and no two rows of code points are shown alike. Each code point is
shown in a way that can be read off the front (`readShown?`), and none
starts with the quote in use.
-/

namespace ApiMock

namespace Text

variable {cs rest : List Char} {n width : Nat} {quote : Char}

/-! ## Hexadecimal digits -/

/-- The number that hexadecimal digits write. -/
def hexNumber? (cs : List Char) : Option Nat :=
  cs.foldlM (fun n c => (hexValue? c).map (16 * n + ·)) 0

theorem length_hex : (hex width n).length = width := by
  rw [hex, List.length_map, List.length_reverse, List.length_range]

/-- The first of several digits, and the lower ones. -/
theorem hex_succ : hex (width + 1) n = hexDigit (n / 16 ^ width % 16) :: hex width n := by
  have hpower : 2 ^ (4 * width) = 16 ^ width := by rw [Nat.pow_mul]
  rw [hex, List.range_succ, List.reverse_append, List.reverse_singleton, List.map_append,
    List.map_singleton, List.singleton_append, Nat.shiftRight_eq_div_pow, hpower, hex]

/-- **As many digits as it takes write the number.** -/
theorem hexNumber?_hex (h : n < 16 ^ width) : hexNumber? (hex width n) = some n := by
  have key : ∀ width start : Nat,
      (hex width n).foldlM (fun n c => (hexValue? c).map (16 * n + ·)) start =
        some (start * 16 ^ width + n % 16 ^ width) := by
    intro width
    induction width with
    | zero =>
      intro start
      rw [Nat.pow_zero, Nat.mod_one, Nat.mul_one]
      rfl
    | succ width ih =>
      intro start
      rw [hex_succ, List.foldlM_cons, hexValue?_hexDigit (Nat.mod_lt _ (by decide)),
        Option.map_some, Option.bind_eq_bind, Option.bind_some, ih, Nat.mod_pow_succ]
      congr 1
      ring
  rw [hexNumber?, key, Nat.zero_mul, Nat.zero_add, Nat.mod_eq_of_lt h]

/-! ## One code point -/

/-- Reads the code point that the front of a text between quotes shows. -/
def readShown? : List Char → Option (Nat × List Char)
  | '\\' :: 'x' :: rest => (hexNumber? (rest.take 2)).map (·, rest.drop 2)
  | '\\' :: 'u' :: rest => (hexNumber? (rest.take 4)).map (·, rest.drop 4)
  | '\\' :: 'U' :: rest => (hexNumber? (rest.take 8)).map (·, rest.drop 8)
  | '\\' :: 't' :: rest => some ('\t'.toNat, rest)
  | '\\' :: 'n' :: rest => some ('\n'.toNat, rest)
  | '\\' :: 'r' :: rest => some ('\r'.toNat, rest)
  | '\\' :: c :: rest => some (c.toNat, rest)
  | c :: rest => some (c.toNat, rest)
  | [] => none

/-- The quotes in use. -/
def IsQuote (c : Char) : Prop := c = '\'' ∨ c = '"'

theorem isQuote_quoteFor : IsQuote (quoteFor cs) := by
  rw [quoteFor]
  split
  · exact .inr rfl
  · exact .inl rfl

theorem readShown?_hex (h : n < 16 ^ width) :
    (hexNumber? ((hex width n ++ rest).take width)).map (·, (hex width n ++ rest).drop width) =
      some (n, rest) := by
  have hlength : (hex width n).length = width := length_hex
  rw [List.take_left' hlength, List.drop_left' hlength, hexNumber?_hex h]
  rfl

theorem readShown?_escapePoint (h : n < 0x110000) :
    readShown? (escapePoint n ++ rest) = some (n, rest) := by
  rw [escapePoint]
  split_ifs with hbyte hplane
  · exact readShown?_hex hbyte
  · exact readShown?_hex hplane
  · exact readShown?_hex (by omega)

theorem readShown?_quoteChar {c : Char} (hquote : IsQuote quote) :
    readShown? (quoteChar quote c ++ rest) = some (c.toNat, rest) := by
  rw [quoteChar]
  split_ifs with hescaped htab hfeed hreturn hprintable
  · -- a quote or a backslash, which are no letters of an escape
    rw [Bool.or_eq_true, decide_eq_true_iff, decide_eq_true_iff] at hescaped
    rcases hescaped with rfl | rfl
    · rcases hquote with rfl | rfl <;> rfl
    · rfl
  · rw [htab]
    rfl
  · rw [hfeed]
    rfl
  · rw [hreturn]
    rfl
  · rw [Bool.or_eq_true, decide_eq_true_iff, decide_eq_true_iff, not_or] at hescaped
    rw [List.singleton_append, readShown?]
    all_goals
      intros
      simp_all
  · exact readShown?_escapePoint (toNat_lt c)

/-- **What is shown of a code point is read off the front.** -/
theorem readShown?_quotePoint (hquote : IsQuote quote) (h : n < 0x110000) :
    readShown? (quotePoint quote n ++ rest) = some (n, rest) := by
  rw [quotePoint]
  split_ifs with hhalf
  · exact readShown?_escapePoint h
  · rw [readShown?_quoteChar hquote, toNat_ofNat_of_lt h (by simpa using hhalf)]

/-- What is shown of a code point does not start with the quote in use. -/
theorem quotePoint_head (hquote : IsQuote quote) :
    ∃ c more, quotePoint quote n = c :: more ∧ c ≠ quote := by
  have hslash : '\\' ≠ quote := by
    rcases hquote with rfl | rfl <;> decide
  have hescape : ∃ more, escapePoint n = '\\' :: more := by
    rw [escapePoint]
    split_ifs <;> exact ⟨_, rfl⟩
  obtain ⟨more, hmore⟩ := hescape
  rw [quotePoint]
  split_ifs
  · exact ⟨'\\', more, hmore, hslash⟩
  · rw [quoteChar]
    split_ifs with hescaped
    · exact ⟨'\\', _, rfl, hslash⟩
    · exact ⟨'\\', _, rfl, hslash⟩
    · exact ⟨'\\', _, rfl, hslash⟩
    · exact ⟨'\\', _, rfl, hslash⟩
    · rw [Bool.or_eq_true, decide_eq_true_iff, decide_eq_true_iff, not_or] at hescaped
      exact ⟨_, [], rfl, hescaped.1⟩
    · rw [escapePoint]
      split_ifs <;> exact ⟨'\\', _, rfl, hslash⟩

/-! ## Whole texts -/

variable {ns ms : List Nat} {x y : List Char}

/-- Up to the closing quote, what is shown tells the code points. -/
theorem flatMap_quotePoint_inj (hquote : IsQuote quote) (hns : ∀ n ∈ ns, n < 0x110000)
    (hms : ∀ m ∈ ms, m < 0x110000)
    (h : ns.flatMap (quotePoint quote) ++ quote :: x =
      ms.flatMap (quotePoint quote) ++ quote :: y) : ns = ms ∧ x = y := by
  induction ns generalizing ms with
  | nil =>
    cases ms with
    | nil => exact ⟨rfl, (List.cons.inj h).2⟩
    | cons m ms =>
      -- the quote closes one text, and no code point is shown by it
      obtain ⟨c, more, hpoint, hc⟩ := quotePoint_head (n := m) hquote
      rw [List.flatMap_cons, hpoint] at h
      exact absurd (List.cons.inj h).1.symm hc
  | cons n ns ih =>
    obtain ⟨hn, hrestns⟩ := List.forall_mem_cons.mp hns
    cases ms with
    | nil =>
      obtain ⟨c, more, hpoint, hc⟩ := quotePoint_head (n := n) hquote
      rw [List.flatMap_cons, hpoint] at h
      exact absurd (List.cons.inj h).1 hc
    | cons m ms =>
      obtain ⟨hm, hrestms⟩ := List.forall_mem_cons.mp hms
      rw [List.flatMap_cons, List.flatMap_cons, List.append_assoc, List.append_assoc] at h
      have hread := congrArg readShown? h
      rw [readShown?_quotePoint hquote hn, readShown?_quotePoint hquote hm] at hread
      obtain ⟨rfl, hrest⟩ := Prod.mk.inj (Option.some.inj hread)
      obtain ⟨rfl, hxy⟩ := ih hrestns hrestms hrest
      exact ⟨rfl, hxy⟩

theorem toList_quoted (s : String) : ∃ quote, IsQuote quote ∧
    (quoted s).toList = quote :: ((points s.toList).flatMap (quotePoint quote) ++ [quote]) :=
  ⟨_, isQuote_quoteFor, String.toList_ofList⟩

/-- Texts of the same code points. -/
def SamePoints (s t : String) : Prop := points s.toList = points t.toList

/-- They are shown alike. -/
theorem SamePoints.quoted_eq {s t : String} (h : SamePoints s t) : quoted s = quoted t := by
  rw [quoted, quoted, h]

/-- **A quoted text ends where it ends**: what it shows and what follows it
are told by the two together. -/
theorem quoted_append_inj {s t : String}
    (h : (quoted s).toList ++ x = (quoted t).toList ++ y) :
    SamePoints s t ∧ x = y := by
  obtain ⟨quote, hquote, hs⟩ := toList_quoted s
  obtain ⟨quote', -, ht⟩ := toList_quoted t
  rw [hs, ht, List.cons_append, List.cons_append, List.append_assoc,
    List.append_assoc] at h
  obtain ⟨rfl, h⟩ := List.cons.inj h
  exact flatMap_quotePoint_inj hquote points_lt points_lt h

end Text

end ApiMock
