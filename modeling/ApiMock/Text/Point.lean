import ApiMock.Text.Digit
import ApiMock.Text.Utf8
/-!
# Text — code points

Escapes can name a half of a character, a code point from `d800` to
`dfff` that is no character on its own. In a text a half is kept as a
stand-in: a character of a reserved block of private characters, at the
same place as the half in its own block. A character that belongs to the
reserved block itself is kept behind a mark. So each row of code points
is written in one way, and `points` reads it back.

Halves have no bytes: a text that holds one cannot be written to a file.
-/

namespace ApiMock

namespace Text

/-- A code point that is a half of a character. -/
def isHalf (n : Nat) : Bool :=
  0xd800 ≤ n && n ≤ 0xdfff

/-- How far the stand-in of a half is from the half. -/
def halfDistance : Nat := 0x100000

/-- The mark in front of a character that looks like a stand-in. -/
def literalMark : Char := Char.ofNat 0x10d7ff

/-- A stand-in or the mark. -/
def isReserved (c : Char) : Bool :=
  0x10d7ff ≤ c.toNat && c.toNat ≤ 0x10dfff

/-- A code point as it is kept in a text. -/
def ofPoint (n : Nat) : List Char :=
  if isHalf n then [Char.ofNat (halfDistance + n)]
  else if isReserved (Char.ofNat n) then [literalMark, Char.ofNat n]
  else [Char.ofNat n]

/-- Characters as they are kept in a text. -/
def ofChars (cs : List Char) : List Char :=
  cs.flatMap fun c => ofPoint c.toNat

/-- The code point of a character that no mark stands in front of. -/
def pointOf (c : Char) : Nat :=
  if isReserved c then c.toNat - halfDistance else c.toNat

/-- The code points of a text. -/
def points : List Char → List Nat
  | c :: d :: rest =>
    if c = literalMark then d.toNat :: points rest else pointOf c :: points (d :: rest)
  | [c] => [pointOf c]
  | [] => []

/-- The characters of a text, if it holds no half of one. -/
def chars? (cs : List Char) : Option (List Char) :=
  (points cs).mapM fun n => if isHalf n then none else some (Char.ofNat n)

/-- The bytes of a text, if it holds no half of a character. -/
def encode? (s : String) : Option (List UInt8) :=
  (chars? s.toList).map Utf8.encode

/-- The text that bytes encode. -/
def ofBytes? (bytes : List UInt8) : Option String :=
  (Utf8.decode? bytes).map fun cs => String.ofList (ofChars cs)

/-- The texts of the single code points of a text. -/
def singles (s : String) : List String :=
  (points s.toList).map fun n => String.ofList (ofPoint n)

/-- Order of texts by code points. -/
def below (s t : String) : Bool :=
  points s.toList < points t.toList

/-- A text with every half replaced, three signs of replacement for the
three bytes that it would have. -/
def withoutHalves (s : String) : String :=
  String.ofList ((points s.toList).flatMap fun n =>
    if isHalf n then List.replicate 3 (Char.ofNat 0xfffd) else ofPoint n)

/-- A text with every half written as an escape. -/
def withEscapedHalves (s : String) : String :=
  String.ofList ((points s.toList).flatMap fun n =>
    if isHalf n then '\\' :: 'u' :: hex 4 n else ofPoint n)

/-! ## Reading back -/

theorem not_isHalf_iff {n : Nat} : isHalf n = false ↔ n < 0xd800 ∨ 0xdfff < n := by
  simp only [isHalf, Bool.and_eq_false_iff, decide_eq_false_iff_not]
  omega

theorem toNat_ofNat_of_lt {n : Nat} (h : n < 0x110000) (hn : isHalf n = false) :
    (Char.ofNat n).toNat = n := by
  have hv : n.isValidChar := by
    rcases not_isHalf_iff.mp hn with h' | h'
    · exact Or.inl h'
    · exact Or.inr ⟨h', h⟩
  rw [Char.ofNat, dif_pos hv]
  rfl

theorem toNat_stand_in {n : Nat} (hn : isHalf n = true) :
    (Char.ofNat (halfDistance + n)).toNat = halfDistance + n := by
  simp only [isHalf, Bool.and_eq_true, decide_eq_true_eq] at hn
  refine toNat_ofNat_of_lt ?_ (not_isHalf_iff.mpr ?_) <;> simp only [halfDistance] <;> omega

/-- A code point in front of others is read back first. -/
theorem points_ofPoint_append {n : Nat} (h : n < 0x110000) (rest : List Char) :
    points (ofPoint n ++ rest) = n :: points rest := by
  have step : ∀ c : Char, c ≠ literalMark → points (c :: rest) = pointOf c :: points rest := by
    intro c hc
    cases rest with
    | nil => rfl
    | cons d rest => rw [points, if_neg hc]
  rw [ofPoint]
  split
  · rename_i hn
    have ht := toNat_stand_in hn
    have hb := hn
    simp only [isHalf, Bool.and_eq_true, decide_eq_true_eq] at hb
    have hr : isReserved (Char.ofNat (halfDistance + n)) = true := by
      rw [isReserved, ht, halfDistance, Bool.and_eq_true]
      exact ⟨decide_eq_true (by omega), decide_eq_true (by omega)⟩
    have hm : Char.ofNat (halfDistance + n) ≠ literalMark := by
      intro he
      have := congrArg Char.toNat he
      rw [ht] at this
      have hl : literalMark.toNat = 0x10d7ff := rfl
      rw [hl] at this
      simp only [halfDistance] at this
      omega
    rw [List.singleton_append, step _ hm, pointOf, if_pos hr, ht]
    simp
  · rename_i hn
    have hn : isHalf n = false := by simpa using hn
    have ht := toNat_ofNat_of_lt h hn
    split
    · simp [points, ht]
    · rename_i hr
      have hm : Char.ofNat n ≠ literalMark := by
        intro he
        rw [he] at hr
        exact hr rfl
      rw [List.singleton_append, step _ hm, pointOf, if_neg hr, ht]

/-- What is kept of code points tells which they were. -/
theorem points_flatMap_ofPoint {ns : List Nat} (h : ∀ n ∈ ns, n < 0x110000) :
    points (ns.flatMap ofPoint) = ns := by
  induction ns with
  | nil => rfl
  | cons n rest ih =>
    rw [List.flatMap_cons, points_ofPoint_append (h n (by simp))]
    rw [ih fun m hm => h m (by simp [hm])]

end Text

end ApiMock
