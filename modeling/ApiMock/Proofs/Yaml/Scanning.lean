import ApiMock.Proofs.Yaml.Shared
/-!
# Yaml — reading scalars off a text

What a scalar of the shared notation is read as, at the place of a text where
it stands: in quotes its text (`Quoted.read_kept`), without quotes the
characters that it is written with (`Plain.read_bare`). Of the blanks behind
a plain scalar, some are read with it.
-/

namespace ApiMock

namespace Yaml

open Json (Style Piece Bare IsBare)
open Text (ofPoint ofChars)

variable {rest tail : List Char}

/-! ## Places -/

namespace Cursor

variable {c : Cursor} {xs : List Char}

/-- Skipping goes on where it stopped. -/
theorem skip_skip (m n : Nat) (c : Cursor) : (c.skip m).skip n = c.skip (m + n) := by
  induction m generalizing c with
  | zero => rw [skip, Nat.zero_add]
  | succ m ih => rw [skip, ih, Nat.succ_add, skip]

theorem next_eq_skip (c : Cursor) : c.next = c.skip 1 := rfl

theorem skip_cons (c : Cursor) (x : Char) (xs ys : List Char) :
    (c.skip xs.length).next.skip ys.length = c.skip (xs ++ x :: ys).length := by
  rw [next_eq_skip, skip_skip, skip_skip, List.length_append, List.length_cons]
  congr 1
  omega

/-- What was skipped is no longer in front. -/
theorem rest_skip_append (h : c.rest = xs ++ tail) : (c.skip xs.length).rest = tail := by
  rw [rest_skip, h, List.drop_left]

theorem index_skip {n : Nat} (h : n ≤ c.rest.length) : (c.skip n).index = c.index + n := by
  induction n generalizing c with
  | zero => rfl
  | succ n ih =>
    have hnext : c.next.index = c.index + 1 := by
      rw [next]
      split
      · rename_i heq
        rw [heq] at h
        cases h
      · split_ifs <;> rfl
    have hlength : n ≤ c.next.rest.length := by
      rw [rest_next, List.length_tail]
      omega
    rw [skip, ih hlength, hnext]
    omega

/-- The line stays the same up to the next break. -/
theorem line_skip {n : Nat} (h : ∀ x ∈ c.rest.take n, isBreak x = false) :
    (c.skip n).line = c.line := by
  induction n generalizing c with
  | zero => rfl
  | succ n ih =>
    cases hrest : c.rest with
    | nil =>
      have hnext : c.next = c := by rw [next, hrest]
      rw [skip, hnext]
      exact ih (by rw [hrest, List.take_nil]; simp)
    | cons x xs =>
      rw [hrest, List.take_succ_cons] at h
      have hnext : c.next.line = c.line := by
        rw [next, hrest]
        dsimp only
        rw [h x List.mem_cons_self, if_neg Bool.false_ne_true]
        split <;> rfl
      rw [skip, ih, hnext]
      rw [rest_next, hrest]
      exact fun y hy => h y (List.mem_cons_of_mem x hy)

/-- The characters that satisfy a test, in front of one that does not. -/
theorem span_append {p : Char → Bool} (h : c.rest = xs ++ tail) (hxs : ∀ x ∈ xs, p x = true)
    (htail : tail.head?.any p = false) : c.span p = (xs, c.skip xs.length) := by
  rw [span, h, (Text.takeWhile_word hxs htail).1]

theorem lineBreak?_feed (h : c.rest = '\n' :: tail) : c.lineBreak? = some ('\n', c.next) := by
  rw [lineBreak?, peek, h]
  rfl

theorem lineBreak?_none (h : c.rest.head?.any isBreak = false) : c.lineBreak? = none := by
  rw [lineBreak?, peek]
  cases hhead : c.rest.head? with
  | none => rfl
  | some x =>
    rw [hhead, Option.any_some] at h
    have hfeed : (decide (x = '\n') || decide (x = '\x85')) = false := by
      simp only [isBreak, Bool.or_eq_false_iff] at h ⊢
      exact h.1.1
    simp [h, hfeed]

/-- No separator of documents starts with another character than its own. -/
theorem atSeparator_of_head (h : ∀ x, c.rest.head? = some x → x ≠ '-' ∧ x ≠ '.') :
    c.atSeparator = false := by
  rw [atSeparator, atDashes, atDots]
  cases hrest : c.rest with
  | nil => rfl
  | cons x xs =>
    obtain ⟨hdash, hdot⟩ := h x (by rw [hrest, List.head?_cons])
    simp [hdash, hdot]

end Cursor

/-! ## Blanks -/

variable {gap : List Char}

/-- Blanks are spaces, and a line break with more blanks behind them or nothing. -/
theorem gap_cases (h : Style.kept.Gap gap) : ∃ spaces behind, gap = spaces ++ behind ∧
    (∀ x ∈ spaces, x = ' ') ∧
    (behind = [] ∨ ∃ more, behind = '\n' :: more ∧ Style.kept.Gap more) := by
  have hspaces : ∀ x ∈ gap.takeWhile (· = ' '), x = ' ' := by
    intro x hx
    have hspace := List.mem_takeWhile_imp hx
    simpa using hspace
  refine ⟨_, _, List.takeWhile_append_dropWhile.symm, hspaces, ?_⟩
  cases hbehind : gap.dropWhile (· = ' ') with
  | nil => exact .inl rfl
  | cons x more =>
    have hsuffix : x :: more <:+ gap := hbehind ▸ List.dropWhile_suffix _
    have hx : x ≠ ' ' := by
      have hfirst := List.head?_dropWhile_not (fun y => decide (y = ' ')) gap
      rw [hbehind] at hfirst
      simpa using hfirst
    refine .inr ⟨more, ?_, fun y hy => h y (hsuffix.subset (List.mem_cons_of_mem x hy))⟩
    rw [(h x (hsuffix.subset List.mem_cons_self)).resolve_left hx]

/-- Spaces are passed over up to what is none. -/
theorem Cursor.skipSpaces_append {c : Cursor} {spaces : List Char} (h : c.rest = spaces ++ tail)
    (hspaces : ∀ x ∈ spaces, x = ' ') (htail : tail.head? ≠ some ' ') :
    c.skipSpaces = c.skip spaces.length := by
  rw [skipSpaces, skipWhile, span_append h fun x hx => decide_eq_true (hspaces x hx)]
  cases tail with
  | nil => rfl
  | cons x xs => simpa using htail

/-! ## Texts in quotes -/

namespace Quoted

/-- A character that is read as itself by its own. -/
def IsOrdinary (x : Char) : Prop :=
  x ≠ '"' ∧ x ≠ '\\' ∧ isWhite x = false ∧ isBreak x = false

/-- The source with the closing quote at its end is read as a text, wherever it stands. -/
def Holds (source text : List Char) : Prop :=
  ∀ (rest : List Char) (c : Cursor) (fuel : List Char), c.rest = source ++ rest →
    source.length ≤ fuel.length → body true fuel c = .ok (text, c.skip source.length)

variable {piece source cs text : List Char}

/-- A step that reads a piece, and then the rest. -/
theorem Holds.step_append (h : Holds source text) (hne : piece ≠ [])
    (hstep : ∀ (rest : List Char) (c : Cursor), c.rest = piece ++ (source ++ rest) →
      step true c = .ok (some cs, c.skip piece.length)) : Holds (piece ++ source) (cs ++ text) := by
  intro rest c fuel hc hfuel
  have hpos : 0 < piece.length := List.length_pos_of_ne_nil hne
  rw [List.length_append] at hfuel
  rw [List.append_assoc] at hc
  cases fuel with
  | nil =>
    rw [List.length_nil] at hfuel
    omega
  | cons x fuel =>
    rw [List.length_cons] at hfuel
    have hrest := h rest (c.skip piece.length) fuel (Cursor.rest_skip_append hc) (by omega)
    rw [body, hstep rest c hc]
    simp only [Sequence.ok_bind, hrest]
    rw [Cursor.skip_skip, List.length_append]
    rfl

/-- The closing quote ends the text. -/
theorem holds_nil : Holds ['"'] [] := by
  intro rest c fuel hc hfuel
  cases fuel with
  | nil => cases hfuel
  | cons x fuel =>
    have hstep : step true c = .ok (none, c.next) := by
      rw [step, Cursor.peek, hc]
      rfl
    rw [body, hstep]
    rfl

/-- An ordinary character is read as itself. -/
theorem step_ordinary {x : Char} (hx : IsOrdinary x) (c : Cursor) (hc : c.rest = x :: rest) :
    step true c = .ok (some [x], c.skip 1) := by
  obtain ⟨hquote, hslash, hwhite, hbreak⟩ := hx
  rw [step, Cursor.peek, hc]
  simp [hquote, hslash, hwhite, hbreak, Cursor.skip]

theorem Holds.ordinary (h : Holds source text) (hcs : ∀ x ∈ cs, IsOrdinary x) :
    Holds (cs ++ source) (cs ++ text) := by
  induction cs with
  | nil => exact h
  | cons x cs ih =>
    obtain ⟨hx, hrest⟩ := List.forall_mem_cons.mp hcs
    have hstep : ∀ (rest : List Char) (c : Cursor), c.rest = [x] ++ (cs ++ source ++ rest) →
        step true c = .ok (some [x], c.skip [x].length) := fun rest c hc => step_ordinary hx c hc
    exact (ih hrest).step_append (List.cons_ne_nil x []) hstep

/-- Spaces are read together, up to what is no blank. -/
theorem Holds.spaces (h : Holds source text) (hcs : ∀ x ∈ cs, x = ' ')
    (hsource : ∃ x tail, source = x :: tail ∧ isWhite x = false ∧ isBreak x = false) :
    Holds (cs ++ source) (cs ++ text) := by
  by_cases hne : cs = []
  · rw [hne]
    exact h
  · obtain ⟨y, tail, rfl, hwhite, hbreak⟩ := hsource
    refine h.step_append hne fun rest c hc => ?_
    have hspan : c.span isWhite = (cs, c.skip cs.length) := by
      refine Cursor.span_append hc (fun x hx => ?_) (by simpa using hwhite)
      rw [hcs x hx]
      rfl
    have hstop : (c.skip cs.length).lineBreak? = none := by
      refine Cursor.lineBreak?_none ?_
      rw [Cursor.rest_skip_append hc]
      simpa using hbreak
    obtain ⟨x, spaces, rfl⟩ := List.exists_cons_of_ne_nil hne
    have hx : x = ' ' := hcs x List.mem_cons_self
    rw [step, Cursor.peek, hc, hx]
    have hblanks : blanks c = .ok (x :: spaces, c.skip (x :: spaces).length) := by
      simp only [blanks, hspan, hstop]
    simp only [List.cons_append, List.head?_cons]
    rw [hx] at hblanks
    simp [hblanks, isWhite]

/-- A backslash starts an escape. -/
theorem step_escape {c : Cursor} (hc : c.rest = '\\' :: tail) {behind : Cursor}
    (h : escape (c.skip 1) = .ok (cs, behind)) : step true c = .ok (some cs, behind) := by
  rw [step, Cursor.peek, hc]
  have hnext : escape c.next = .ok (cs, behind) := h
  simp [hnext]

/-- A letter that JSON knows stands for the same character. -/
theorem step_letter {l x : Char} (h : Json.letterValue? l = some x) {c : Cursor}
    (hc : c.rest = '\\' :: l :: tail) : step true c = .ok (some (ofPoint x.toNat), c.skip 2) := by
  have hsame : letterValue? l = some x ∧ x.toNat < 0x80 := by
    rw [Json.letterValue?.eq_def] at h
    split at h <;> cases h <;> exact ⟨rfl, by decide⟩
  have hpeek : (c.skip 1).peek = some l := by
    rw [Cursor.peek, Cursor.rest_skip, hc]
    rfl
  refine step_escape hc ?_
  rw [escape, hpeek]
  simp only [hsame.1, Json.ofPoint_of_ascii hsame.2]
  rfl

/-- Four hexadecimal digits are one code. -/
theorem code?_unit {a b d e : Char} {n : Nat} (h : Json.unitOf? [a, b, d, e] = some n) :
    code? [a, b, d, e] = some n ∧ n < 0x10000 := by
  obtain ⟨va, vb, vd, ve, ha, hb, hd, he, rfl⟩ := Json.unitOf?_values h
  have := (Json.hexValue?_ascii ha).2
  have := (Json.hexValue?_ascii hb).2
  have := (Json.hexValue?_ascii hd).2
  have := (Json.hexValue?_ascii he).2
  refine ⟨?_, by omega⟩
  simp only [code?, List.foldlM_cons, List.foldlM_nil, ha, hb, hd, he, Option.map_some,
    Option.bind_eq_bind, Option.bind_some]
  congr 1
  omega

/-- So do four hexadecimal digits. -/
theorem step_unit {a b d e : Char} {n : Nat} (h : Json.unitOf? [a, b, d, e] = some n) {c : Cursor}
    (hc : c.rest = '\\' :: 'u' :: a :: b :: d :: e :: tail) :
    step true c = .ok (some (ofPoint n), c.skip 6) := by
  obtain ⟨hcode, hlt⟩ := code?_unit h
  have hpeek : (c.skip 1).peek = some 'u' := by
    rw [Cursor.peek, Cursor.rest_skip, hc]
    rfl
  have hdigits : (c.skip 1).next.rest.take 4 = [a, b, d, e] := by
    rw [Cursor.rest_next, Cursor.rest_skip, hc]
    rfl
  have hofCode : ofCode n = .ok (ofPoint n) := by
    rw [ofCode, if_neg (by omega), if_neg (by omega)]
  have hletter : letterValue? 'u' = none ∧ codeLength? 'u' = some 4 := ⟨rfl, rfl⟩
  refine step_escape hc ?_
  rw [escape, hpeek]
  simp only [hletter, hdigits, hcode, hofCode]
  rfl

/-- A character that JSON texts hold as it is, is kept as ordinary ones unless it is a space. -/
theorem ordinary_plain {x : Char} (hcontrol : 0x20 ≤ x.toNat) (hquote : x ≠ '"') (hslash : x ≠ '\\')
    (hbreak : isBreak x = false) (hspace : x ≠ ' ') : ∀ y ∈ ofPoint x.toNat, IsOrdinary y := by
  have hself : IsOrdinary x := by
    refine ⟨hquote, hslash, ?_, hbreak⟩
    have htab : x ≠ '\t' := by
      rintro rfl
      revert hcontrol
      decide
    simp [isWhite, hspace, htab]
  have hmark : IsOrdinary Text.literalMark := by
    refine ⟨?_, ?_, ?_, ?_⟩ <;> decide
  have hhalf : Text.isHalf x.toNat = false := Text.not_isHalf_iff.mpr (Text.not_half x)
  intro y hy
  rw [ofPoint, hhalf, if_neg Bool.false_ne_true, Char.ofNat_toNat] at hy
  split at hy
  · rcases List.mem_cons.mp hy with rfl | hy
    · exact hmark
    · rw [List.mem_singleton.mp hy]
      exact hself
  · rw [List.mem_singleton.mp hy]
    exact hself

/-- A piece that is no space, in front of what is read already. -/
theorem Holds.append {n : Nat} (h : Holds source text) (hpiece : Piece n piece)
    (hne : piece ≠ [' ']) : Holds (ofChars piece ++ source) (ofPoint n ++ text) ∧
      ∃ x tail, ofChars piece ++ source = x :: tail ∧ isWhite x = false ∧ isBreak x = false := by
  have hkept := hpiece.kept
  cases hpiece with
  | @plain x hcontrol hquote hslash hallowed hbreak =>
    have hordinary := ordinary_plain hcontrol hquote hslash hbreak fun heq => hne (by rw [heq])
    have hpoint : ofChars [x] = ofPoint x.toNat := List.flatMap_singleton _ _
    rw [hpoint]
    refine ⟨h.ordinary hordinary, ?_⟩
    obtain ⟨y, ys, hys⟩ : ∃ y ys, ofPoint x.toNat = y :: ys := by
      rw [ofPoint]
      split_ifs <;> exact ⟨_, _, rfl⟩
    rw [hys] at hordinary ⊢
    obtain ⟨-, -, hwhite, hbreak⟩ := hordinary y List.mem_cons_self
    exact ⟨y, _, rfl, hwhite, hbreak⟩
  | @letter l x hl =>
    rw [hkept rfl]
    refine ⟨h.step_append (List.cons_ne_nil _ _) fun rest c hc => step_letter hl hc, ?_⟩
    exact ⟨'\\', _, rfl, by decide, by decide⟩
  | @unit a b d e n hn hhalf =>
    rw [hkept rfl]
    refine ⟨h.step_append (List.cons_ne_nil _ _) fun rest c hc => step_unit hn hc, ?_⟩
    exact ⟨'\\', _, rfl, by decide, by decide⟩

/-- **The pieces of a text are read as what they write.** Spaces in front are read with the
first of them, so they are carried along. -/
theorem holds_pieces {ns : List Nat} {pieces : List (List Char)} (h : List.Forall₂ Piece ns pieces)
    (hcs : ∀ x ∈ cs, x = ' ') :
    Holds (cs ++ (ofChars pieces.flatten ++ ['"'])) (cs ++ ns.flatMap ofPoint) := by
  induction h generalizing cs with
  | nil => exact holds_nil.spaces hcs ⟨'"', [], rfl, by decide, by decide⟩
  | @cons n piece ns pieces hpiece _ ih =>
    rw [List.flatten_cons, Text.ofChars_append, List.flatMap_cons]
    by_cases hspace : piece = [' ']
    · have hn : ofPoint n = [' '] := by
        rw [hspace] at hpiece
        cases hpiece
        rfl
      have hmore : ∀ x ∈ cs ++ [' '], x = ' ' := by
        intro x hx
        rcases List.mem_append.mp hx with hx | hx
        · exact hcs x hx
        · exact List.mem_singleton.mp hx
      have hread := ih hmore
      have hkept : ofChars [' '] = [' '] := Json.ofChars_of_ascii (by decide)
      rw [List.append_assoc, List.append_assoc] at hread
      rw [hspace, hkept, hn, List.append_assoc [' ']]
      exact hread
    · have hread := @ih [] (by simp)
      obtain ⟨hholds, hhead⟩ := hread.append hpiece hspace
      rw [List.append_assoc]
      exact hholds.spaces hcs hhead

/-- A piece holds no break. -/
theorem isBreak_piece {n : Nat} (h : Piece n piece) : ∀ x ∈ ofChars piece, isBreak x = false := by
  have hprinted : ∀ m < 0x7f, 0x20 ≤ m → isBreak (Char.ofNat m) = false := by decide
  have hslash : piece.head? = some '\\' → ∀ x ∈ ofChars piece, isBreak x = false := by
    intro hhead x hx
    rw [h.kept hhead] at hx
    have hx := h.ascii hhead x hx
    have hbreak := hprinted x.toNat hx.2 hx.1
    rwa [Char.ofNat_toNat] at hbreak
  cases h with
  | @plain y hcontrol hquote hne hallowed hbreak =>
    have hkept : ofChars [y] = ofPoint y.toNat := List.flatMap_singleton _ _
    rw [hkept]
    by_cases hspace : y = ' '
    · rw [hspace]
      decide
    · exact fun x hx => (ordinary_plain hcontrol hquote hne hbreak hspace x hx).2.2.2
  | letter => exact hslash rfl
  | unit => exact hslash rfl

/-- A text in quotes stands on one line. -/
theorem kept_line {s : String} (h : Style.kept.quoted s cs) :
    (∃ tail, cs = '"' :: tail) ∧ ∀ x ∈ cs, isBreak x = false := by
  obtain ⟨-, ⟨ns, pieces, hpieces, rfl, rfl⟩, rfl⟩ := h
  refine ⟨⟨_, rfl⟩, fun x hx => ?_⟩
  obtain ⟨y, hy, hx⟩ := List.mem_flatMap.mp hx
  rcases List.mem_cons.mp hy with rfl | hy
  · rw [List.mem_singleton.mp hx]
    decide
  · rcases List.mem_append.mp hy with hy | hy
    · obtain ⟨piece, hpiece, hy⟩ := List.mem_flatten.mp hy
      obtain ⟨n, -, hn⟩ := Sequence.exists_of_mem_right hpieces hpiece
      exact isBreak_piece hn x (List.mem_flatMap.mpr ⟨y, hy, hx⟩)
    · rw [List.mem_singleton.mp hy] at hx
      rw [List.mem_singleton.mp hx]
      decide

/-- **A text in quotes is read as the text that it writes**, and it ends on its line. -/
theorem read_kept {s : String} {c : Cursor} (h : Style.kept.quoted s cs)
    (hc : c.rest = cs ++ rest) : read true c = .ok (s, c.skip cs.length) := by
  obtain ⟨-, ⟨ns, pieces, hpieces, rfl, rfl⟩, rfl⟩ := h
  have hquote : ∀ xs, ofChars ('"' :: xs) = '"' :: ofChars xs := fun xs => rfl
  have hclose : ofChars ['"'] = ['"'] := rfl
  rw [hquote, Text.ofChars_append, hclose] at hc ⊢
  have hnext : (c.next).rest = ofChars pieces.flatten ++ ['"'] ++ rest := by
    rw [Cursor.rest_next, hc]
    rfl
  have hlength : (ofChars pieces.flatten ++ ['"']).length ≤ c.bound.length := by
    simp only [Cursor.bound, hc, List.length_cons, List.length_append]
    omega
  have hread := @holds_pieces [] _ _ hpieces (by simp) rest c.next c.bound hnext hlength
  rw [read, hread]
  simp only [Sequence.ok_bind, List.nil_append]
  rfl

end Quoted

/-! ## Texts without quotes -/

namespace Plain

/-- A character of a number or a word goes on with a plain scalar. -/
theorem endsAt_bare {x : Char} (hx : IsBare x) (inFlow : Bool) (after : Option Char) :
    endsAt inFlow x after = false ∧ x ≠ '#' := by
  have hall : ∀ n < 128, IsBare (Char.ofNat n) → isGap (some (Char.ofNat n)) = false ∧
      Char.ofNat n ≠ ':' ∧ Char.ofNat n ≠ '?' ∧ isFlowMark (Char.ofNat n) = false ∧
      Char.ofNat n ≠ '#' := by decide +kernel
  obtain ⟨hgap, hcolon, hquestion, hmark, hhash⟩ := Json.forall_ascii (fun x => IsBare x →
    isGap (some x) = false ∧ x ≠ ':' ∧ x ≠ '?' ∧ isFlowMark x = false ∧ x ≠ '#') hall hx.ascii hx
  refine ⟨?_, hhash⟩
  simp [endsAt, hgap, hcolon, hquestion, hmark]

/-- What ends a plain scalar: the end of the text, or in brackets a mark of them. -/
def Ends (inFlow : Bool) (tail : List Char) : Prop :=
  tail = [] ∨ inFlow = true ∧ ∃ x ∈ [',', ']', '\x7d'], tail.head? = some x

variable {inFlow : Bool} {cs : List Char}

/-- It is no blank, and no character of a separator. -/
theorem Ends.head (h : Ends inFlow tail) {x : Char} (hx : tail.head? = some x) :
    x ≠ ' ' ∧ isBreak x = false ∧ x ≠ '-' ∧ x ≠ '.' := by
  have hall : ∀ y ∈ [',', ']', '\x7d'], y ≠ ' ' ∧ isBreak y = false ∧ y ≠ '-' ∧ y ≠ '.' := by
    decide
  rcases h with rfl | ⟨-, y, hy, htail⟩
  · cases hx
  · rw [hx] at htail
    exact Option.some.inj htail ▸ hall y hy

/-- No separator of documents stands behind blanks. -/
theorem separator_gap (h : Ends inFlow tail) {c : Cursor} (hgap : Style.kept.Gap gap)
    (hc : c.rest = gap ++ tail) : c.atSeparator = false := by
  refine Cursor.atSeparator_of_head fun x hx => ?_
  rw [hc] at hx
  cases gap with
  | nil => exact ⟨(h.head hx).2.2.1, (h.head hx).2.2.2⟩
  | cons y gap =>
    rw [List.cons_append, List.head?_cons, Option.some.injEq] at hx
    rcases hgap y List.mem_cons_self with rfl | rfl
    · exact hx ▸ ⟨by decide, by decide⟩
    · exact hx ▸ ⟨by decide, by decide⟩

theorem lineBreak?_tail (h : Ends inFlow tail) {c : Cursor} (hc : c.rest = tail) :
    c.lineBreak? = none := by
  refine Cursor.lineBreak?_none ?_
  rw [hc]
  cases htail : tail.head? with
  | none => rfl
  | some x => exact (h.head htail).2.1

theorem breaks_gap (h : Ends inFlow tail) (fuel : List Char) {c : Cursor}
    (hgap : Style.kept.Gap gap)
    (hc : c.rest = gap ++ tail) (hfuel : gap.length < fuel.length) :
    ∃ more, breaks fuel c = (some more, c.skip gap.length) := by
  induction fuel generalizing gap c with
  | nil => cases hfuel
  | cons x fuel ih =>
    obtain ⟨spaces, behind, rfl, hspaces, hbehind⟩ := gap_cases hgap
    rw [List.append_assoc] at hc
    rcases hbehind with rfl | ⟨more, rfl, hmore⟩
    · have hskip : c.skipSpaces = c.skip spaces.length :=
        Cursor.skipSpaces_append hc hspaces fun hx => (h.head hx).1 rfl
      have hstop := lineBreak?_tail h (Cursor.rest_skip_append hc)
      rw [breaks, hskip, List.append_nil]
      simp only [hstop]
      exact ⟨[], rfl⟩
    · have hskip : c.skipSpaces = c.skip spaces.length :=
        Cursor.skipSpaces_append hc hspaces (by simp)
      have hrest : (c.skip spaces.length).rest = '\n' :: (more ++ tail) :=
        Cursor.rest_skip_append hc
      have hbreak := Cursor.lineBreak?_feed hrest
      have hnext : (c.skip spaces.length).next.rest = more ++ tail := by
        rw [Cursor.rest_next, hrest, List.tail_cons]
      have hseparator := separator_gap h hmore hnext
      rw [List.length_append, List.length_cons] at hfuel
      rw [List.length_cons] at hfuel
      obtain ⟨others, hothers⟩ := ih hmore hnext (by omega)
      refine ⟨'\n' :: others, ?_⟩
      rw [breaks, hskip]
      simp only [hbreak, hseparator, hothers, Bool.false_eq_true, if_false, Option.map_some]
      rw [Cursor.skip_cons]

/-- Blanks are read with the scalar in front of them. -/
theorem between_gap (h : Ends inFlow tail) {c : Cursor} (hgap : Style.kept.Gap gap)
    (hc : c.rest = gap ++ tail) :
    ∃ read brokeLine, between c = (read, brokeLine, c.skip gap.length) := by
  obtain ⟨spaces, behind, rfl, hspaces, hbehind⟩ := gap_cases hgap
  rw [List.append_assoc] at hc
  have hspan : c.span (· = ' ') = (spaces, c.skip spaces.length) := by
    refine Cursor.span_append hc (fun x hx => decide_eq_true (hspaces x hx)) ?_
    rcases hbehind with rfl | ⟨more, rfl, -⟩
    · cases htail : tail.head? with
      | none => simp [htail]
      | some x => simpa [htail] using (h.head htail).1
    · rfl
  rcases hbehind with rfl | ⟨more, rfl, hmore⟩
  · have hstop := lineBreak?_tail h (Cursor.rest_skip_append hc)
    rw [between, hspan, List.append_nil]
    simp only [hstop]
    exact ⟨_, _, rfl⟩
  · have hrest : (c.skip spaces.length).rest = '\n' :: (more ++ tail) := Cursor.rest_skip_append hc
    have hbreak := Cursor.lineBreak?_feed hrest
    have hnext : (c.skip spaces.length).next.rest = more ++ tail := by
      rw [Cursor.rest_next, hrest, List.tail_cons]
    have hseparator := separator_gap h hmore hnext
    have hbound : more.length < (c.skip spaces.length).next.bound.length := by
      rw [Cursor.bound, hnext, List.length_cons, List.length_append]
      omega
    obtain ⟨others, hothers⟩ := breaks_gap h _ hmore hnext hbound
    rw [between, hspan]
    simp only [hbreak, hseparator, hothers, Bool.false_eq_true, if_false]
    rw [Cursor.skip_cons]
    exact ⟨_, _, rfl⟩

/-- A piece of ordinary characters ends where the scalar does or at a blank. -/
theorem piece_append (hcs : ∀ x ∈ cs, ∀ after, endsAt inFlow x after = false)
    (htail : ∀ x xs, tail = x :: xs → endsAt inFlow x xs.head? = true) :
    piece inFlow (cs ++ tail) = cs := by
  induction cs with
  | nil =>
    cases tail with
    | nil => rfl
    | cons x xs => rw [List.nil_append, piece, if_pos (htail x xs rfl)]
  | cons x cs ih =>
    obtain ⟨hx, hrest⟩ := List.forall_mem_cons.mp hcs
    rw [List.cons_append, piece, hx, if_neg Bool.false_ne_true, ih hrest]


/-- Behind blanks, a mark and the end of a text start no piece. -/
theorem pieces_tail (h : Ends inFlow tail) (fuel spaces : List Char) (brokeLine : Bool) {c : Cursor}
    (hc : c.rest = tail) : pieces inFlow 0 fuel spaces brokeLine c = ⟨[], brokeLine, c⟩ := by
  cases fuel with
  | nil => rfl
  | cons x fuel =>
    have hpiece : piece inFlow c.rest = [] := by
      rw [hc]
      rcases h with rfl | ⟨rfl, y, hy, htail⟩
      · rfl
      · obtain ⟨ys, rfl⟩ := List.head?_eq_some_iff.mp htail
        have hends : ∀ z ∈ [',', ']', '\x7d'], ∀ after, endsAt true z after = true := by
          intro z hz after
          have hmark : ∀ z ∈ [',', ']', '\x7d'], isFlowMark z = true := by decide
          simp [endsAt, hmark z hz]
        rw [piece, if_pos (hends y hy _)]
    rw [pieces, hpiece]
    simp

/-- **Characters of a number or a word are read as a scalar**, with the blanks behind them. -/
theorem read_bare {j : Json} (hbare : Bare j cs) (h : Ends inFlow tail) {c : Cursor}
    (hgap : Style.kept.Gap gap) (hc : c.rest = cs ++ (gap ++ tail)) :
    ∃ brokeLine, read inFlow 0 c = ⟨cs, brokeLine, c.skip (cs ++ gap).length⟩ := by
  obtain ⟨x, xs, hx, -⟩ := hbare.head
  have hplain := hbare.plain
  have hstop : ∀ y ys, gap ++ tail = y :: ys → endsAt inFlow y ys.head? = true := by
    intro y ys heq
    cases gap with
    | nil =>
      rcases h with rfl | ⟨rfl, z, hz, htail⟩
      · cases heq
      · have hall : ∀ z ∈ [',', ']', '\x7d'], isFlowMark z = true := by decide
        rw [List.nil_append] at heq
        rw [heq, List.head?_cons, Option.some.injEq] at htail
        simp [endsAt, htail, hall z hz]
    | cons z gap =>
      rw [List.cons_append] at heq
      obtain rfl := (List.cons.inj heq).1
      rcases hgap z List.mem_cons_self with rfl | rfl <;> rfl
  have hpiece : piece inFlow c.rest = cs := by
    rw [hc]
    exact piece_append (fun y hy after => (endsAt_bare (hplain y hy) inFlow after).1) hstop
  have hpeek : c.peek ≠ some '#' := by
    rw [Cursor.peek, hc, hx, List.cons_append, List.head?_cons, Ne, Option.some.injEq]
    exact (endsAt_bare (hplain x (by rw [hx]; exact List.mem_cons_self)) inFlow none).2
  have hsome : cs.isEmpty = false := by rw [hx, List.isEmpty_cons]
  obtain ⟨spaces, brokeLine, hbetween⟩ := between_gap h hgap (Cursor.rest_skip_append hc)
  have htail : ((c.skip cs.length).skip gap.length).rest = tail :=
    Cursor.rest_skip_append (Cursor.rest_skip_append hc)
  have hrest := pieces_tail h c.rest spaces brokeLine htail
  rw [Cursor.skip_skip, ← List.length_append] at hbetween hrest
  refine ⟨brokeLine, ?_⟩
  rw [read, Cursor.bound, pieces, if_neg hpeek, hpiece, hbetween]
  simp only [hsome, Bool.false_eq_true, if_false, hrest, ite_self, List.nil_append, List.append_nil]

end Plain

end Yaml

end ApiMock
