import Mathlib.Tactic.SplitIfs
import ApiMock.Text.Point
/-!
# Text — characters by code point

The case of an ASCII letter is a matter of its code point, and changing it
moves the code point by 32. Everything about the case of letters in names
is arithmetic on code points from here on. A character is a code point and
no half of one, what the points of a text are read as is a code point, and
a hexadecimal digit is read back. So is a text from its bytes
(`Utf8.decode?_encode`).
-/

namespace ApiMock

namespace Text

variable {c : Char}

/-- What holds of the characters of a text is decided on the text, not on all there are. -/
instance (priority := 2000) decidableForallMem (p : Char → Prop) [DecidablePred p]
    (cs : List Char) : Decidable (∀ c ∈ cs, p c) :=
  List.decidableBAll p cs

theorem isUpper_iff : c.isUpper = true ↔ 65 ≤ c.toNat ∧ c.toNat ≤ 90 := by
  change decide (c.val ≥ 'A'.val ∧ c.val ≤ 'Z'.val) = true ↔ _
  simp [UInt32.le_iff_toNat_le]

theorem isLower_iff : c.isLower = true ↔ 97 ≤ c.toNat ∧ c.toNat ≤ 122 := by
  change (decide (c.val ≥ 'a'.val) && decide (c.val ≤ 'z'.val)) = true ↔ _
  simp [UInt32.le_iff_toNat_le]

theorem isDigit_iff : c.isDigit = true ↔ 48 ≤ c.toNat ∧ c.toNat ≤ 57 :=
  Char.isDigit_iff_toNat

theorem isAlpha_iff : c.isAlpha = true ↔ c.isUpper = true ∨ c.isLower = true := by
  change (c.isUpper || c.isLower) = true ↔ _
  rw [Bool.or_eq_true]

theorem isAlphanum_iff :
    c.isAlphanum = true ↔ c.isUpper = true ∨ c.isLower = true ∨ c.isDigit = true := by
  change (c.isAlpha || c.isDigit) = true ↔ _
  rw [Bool.or_eq_true, isAlpha_iff, or_assoc]

theorem toNat_toUpper : c.toUpper.toNat = if c.isLower then c.toNat - 32 else c.toNat := by
  by_cases h : c.isLower = true
  · have hc := isLower_iff.mp h
    have hrange : 'a'.val ≤ c.val ∧ c.val ≤ 'z'.val := by
      simpa [UInt32.le_iff_toNat_le] using hc
    rw [if_pos h, show c.toUpper = _ from dif_pos hrange]
    -- the distance is negative, so it is added modulo the size of a word
    change (c.val + ('A'.val - 'a'.val)).toNat = c.toNat - 32
    rw [UInt32.toNat_add]
    change (c.toNat + 4294967264) % 2 ^ 32 = c.toNat - 32
    omega
  · have hrange : ¬ ('a'.val ≤ c.val ∧ c.val ≤ 'z'.val) := by
      rw [isLower_iff] at h
      simpa [UInt32.le_iff_toNat_le] using h
    rw [if_neg h, show c.toUpper = c from dif_neg hrange]

theorem toNat_toLower : c.toLower.toNat = if c.isUpper then c.toNat + 32 else c.toNat := by
  by_cases h : c.isUpper = true
  · have hc := isUpper_iff.mp h
    have hrange : c.val ≥ 'A'.val ∧ c.val ≤ 'Z'.val := by
      simpa [UInt32.le_iff_toNat_le] using hc
    rw [if_pos h, show c.toLower = _ from dif_pos hrange]
    change (c.val + ('a'.val - 'A'.val)).toNat = c.toNat + 32
    rw [UInt32.toNat_add]
    change (c.toNat + 32) % 2 ^ 32 = c.toNat + 32
    omega
  · have hrange : ¬ (c.val ≥ 'A'.val ∧ c.val ≤ 'Z'.val) := by
      rw [isUpper_iff] at h
      simpa [UInt32.le_iff_toNat_le] using h
    rw [if_neg h, show c.toLower = c from dif_neg hrange]

/-! ## Capitals are neither small letters nor digits -/

theorem not_isUpper_of_isLower (h : c.isLower = true) : c.isUpper = false := by
  rw [isLower_iff] at h
  rw [← Bool.not_eq_true, isUpper_iff]
  omega

theorem not_isLower_of_isUpper (h : c.isUpper = true) : c.isLower = false := by
  rw [isUpper_iff] at h
  rw [← Bool.not_eq_true, isLower_iff]
  omega

theorem not_isDigit_of_isUpper (h : c.isUpper = true) : c.isDigit = false := by
  rw [isUpper_iff] at h
  rw [← Bool.not_eq_true, isDigit_iff]
  omega

/-! ## What a change of case keeps -/

theorem toUpper_of_not_isLower (h : ¬ c.isLower = true) : c.toUpper = c := by
  rw [← Char.toNat_inj, toNat_toUpper, if_neg h]

theorem toLower_of_not_isUpper (h : ¬ c.isUpper = true) : c.toLower = c := by
  rw [← Char.toNat_inj, toNat_toLower, if_neg h]

/-- A capital has no capital of its own. -/
theorem not_isLower_toUpper : ¬ c.toUpper.isLower = true := by
  rw [isLower_iff, toNat_toUpper]
  split
  · rename_i h
    have hc := isLower_iff.mp h
    omega
  · rename_i h
    rwa [isLower_iff] at h

/-- What is no small letter comes back from lower case. -/
theorem toUpper_toLower (h : ¬ c.isLower = true) : c.toLower.toUpper = c := by
  by_cases hc : c.isUpper = true
  · have hrange := isUpper_iff.mp hc
    have hlower : c.toLower.isLower = true := by
      rw [isLower_iff, toNat_toLower, if_pos hc]
      omega
    rw [← Char.toNat_inj, toNat_toUpper, if_pos hlower, toNat_toLower, if_pos hc]
    omega
  · rw [toLower_of_not_isUpper hc, toUpper_of_not_isLower h]

/-- A letter or digit in upper case is one. -/
theorem isAlphanum_toUpper (h : c.isAlphanum = true) : c.toUpper.isAlphanum = true := by
  by_cases hc : c.isLower = true
  · have hrange := isLower_iff.mp hc
    rw [isAlphanum_iff, isUpper_iff, toNat_toUpper, if_pos hc]
    omega
  · rwa [toUpper_of_not_isLower hc]

/-- A letter in upper case is a letter, and nothing else becomes one. -/
@[simp] theorem isAlpha_toUpper : c.toUpper.isAlpha = c.isAlpha := by
  rw [Bool.eq_iff_iff]
  simp only [isAlpha_iff, isUpper_iff, isLower_iff, toNat_toUpper]
  split <;> omega

/-- A letter in lower case is a letter, and nothing else becomes one. -/
@[simp] theorem isAlpha_toLower : c.toLower.isAlpha = c.isAlpha := by
  rw [Bool.eq_iff_iff]
  simp only [isAlpha_iff, isUpper_iff, isLower_iff, toNat_toLower]
  split <;> omega

/-- A letter or digit in lower case is a small letter or a digit. -/
theorem toLower_of_isAlphanum (h : c.isAlphanum = true) :
    c.toLower.isLower = true ∨ c.toLower.isDigit = true := by
  by_cases hc : c.isUpper = true
  · have hrange := isUpper_iff.mp hc
    rw [isLower_iff, toNat_toLower, if_pos hc]
    omega
  · rw [toLower_of_not_isUpper hc]
    exact (isAlphanum_iff.mp h).resolve_left hc

/-- A character gets its capital back from lower case. -/
theorem toUpper_toLower_eq (c : Char) : c.toLower.toUpper = c.toUpper := by
  by_cases hc : c.isLower = true
  · rw [toLower_of_not_isUpper (by simp [not_isUpper_of_isLower hc])]
  · rw [toUpper_toLower hc, toUpper_of_not_isLower hc]

/-- A character in lower case is no capital, and a capital is a small letter then. -/
theorem not_isUpper_toLower (c : Char) : c.toLower.isUpper = false := by
  rw [← Bool.not_eq_true, isUpper_iff, toNat_toLower]
  split
  · rename_i hc
    have := isUpper_iff.mp hc
    omega
  · rename_i hc
    rwa [isUpper_iff] at hc

theorem isLower_toLower (h : c.isUpper = true) : c.toLower.isLower = true := by
  have := isUpper_iff.mp h
  rw [isLower_iff, toNat_toLower, if_pos h]
  omega

/-! ## Code points and their digits -/

/-- A character is no half of one. -/
theorem not_half (c : Char) : c.toNat < 0xd800 ∨ 0xdfff < c.toNat :=
  c.valid.imp id And.left

theorem toNat_lt (c : Char) : c.toNat < 0x110000 := by
  have hvalid : c.toNat < 0xd800 ∨ 0xdfff < c.toNat ∧ c.toNat < 0x110000 := c.valid
  omega

/-- A text is kept part by part. -/
theorem ofChars_append (xs ys : List Char) : ofChars (xs ++ ys) = ofChars xs ++ ofChars ys :=
  List.flatMap_append

/-- The code points of a text are code points. -/
theorem points_lt {cs : List Char} : ∀ n ∈ points cs, n < 0x110000 := by
  have hpoint : ∀ c, pointOf c < 0x110000 := by
    intro c
    have := toNat_lt c
    rw [pointOf]
    split <;> omega
  fun_induction points cs with
  | case1 d rest ih => exact List.forall_mem_cons.mpr ⟨toNat_lt d, ih⟩
  | case2 c d rest hmark ih => exact List.forall_mem_cons.mpr ⟨hpoint c, ih⟩
  | case3 c => exact List.forall_mem_singleton.mpr (hpoint c)
  | case4 => exact fun n hn => absurd hn List.not_mem_nil

theorem hexValue?_hexDigit {n : Nat} (h : n < 16) : hexValue? (hexDigit n) = some n := by
  have hall : ∀ n < 16, hexValue? (hexDigit n) = some n := by decide
  exact hall n h

/-! ## Bytes -/

namespace Utf8

variable {ch : Char} {a b c d : UInt8} {least most : Nat} (rest : List UInt8)

/-- The bytes of one character in front are read first. -/
theorem decode?_one (h : one a = some ch) : decode? (a :: rest) = (decode? rest).map (ch :: ·) := by
  rw [decode?.eq_def]
  simp only [h]

theorem decode?_two (hone : one a = none) (h : two a b = some ch) :
    decode? (a :: b :: rest) = (decode? rest).map (ch :: ·) := by
  rw [decode?.eq_def]
  simp only [hone, h]

theorem decode?_three (hone : one a = none) (htwo : two a b = none) (h : three a b c = some ch) :
    decode? (a :: b :: c :: rest) = (decode? rest).map (ch :: ·) := by
  rw [decode?.eq_def]
  simp only [hone, htwo, h]

theorem decode?_four (hone : one a = none) (htwo : two a b = none) (hthree : three a b c = none)
    (h : four a b c d = some ch) :
    decode? (a :: b :: c :: d :: rest) = (decode? rest).map (ch :: ·) := by
  rw [decode?.eq_def]
  simp only [hone, htwo, hthree, h]

theorem one_eq_none (h : 0x80 ≤ a.toNat) : one a = none := by
  rw [one, if_neg (Nat.not_lt.mpr h)]

theorem two_eq_none (h : 0xdf < a.toNat) : two a b = none := by
  rw [two, if_neg fun ha => absurd ha.2.1 (Nat.not_le.mpr h)]

theorem three_eq_none (h : 0xef < a.toNat) : three a b c = none := by
  rw [three, if_neg fun ha => absurd ha.2.1 (Nat.not_le.mpr h)]

theorem charBetween_toNat (hleast : least ≤ ch.toNat) (hmost : ch.toNat ≤ most) :
    charBetween least most ch.toNat = some ch := by
  have hhalf : ¬ (0xd800 ≤ ch.toNat ∧ ch.toNat ≤ 0xdfff) := by
    have := not_half ch
    omega
  rw [charBetween, if_pos ⟨hleast, hmost, hhalf⟩, Char.ofNat_toNat]

theorem toNat_byte {n : Nat} (h : n < 256) : (UInt8.ofNat n).toNat = n := by
  rw [UInt8.toNat_ofNat', Nat.mod_eq_of_lt h]

theorem isTail_byte (n : Nat) : isTail (UInt8.ofNat (0x80 + n % 64)) = true ∧
    (UInt8.ofNat (0x80 + n % 64)).toNat % 64 = n % 64 := by
  rw [isTail, toNat_byte (by omega), Bool.and_eq_true, decide_eq_true_iff, decide_eq_true_iff]
  omega

/-- **The bytes of a character are read as the character**, whatever comes behind them. -/
theorem decode?_encodeChar (ch : Char) :
    decode? (encodeChar ch ++ rest) = (decode? rest).map (ch :: ·) := by
  have hmost := toNat_lt ch
  obtain ⟨hlow, hlowest⟩ := isTail_byte ch.toNat
  obtain ⟨hmiddle, hmid⟩ := isTail_byte (ch.toNat / 64)
  obtain ⟨hhigh, hupper⟩ := isTail_byte (ch.toNat / 4096)
  rw [encodeChar]
  split_ifs with h1 h2 h3
  · refine decode?_one rest ?_
    rw [one, toNat_byte (by omega), if_pos h1, Char.ofNat_toNat]
  · have ha : (UInt8.ofNat (0xc0 + ch.toNat / 64)).toNat = 0xc0 + ch.toNat / 64 :=
      toNat_byte (by omega)
    refine decode?_two rest (one_eq_none (by omega)) ?_
    have hpoint : extend ((0xc0 + ch.toNat / 64) % 32) (UInt8.ofNat (0x80 + ch.toNat % 64)) =
        ch.toNat := by
      rw [extend, hlowest]
      omega
    rw [two, ha, if_pos ⟨by omega, by omega, hlow⟩, hpoint, charBetween_toNat (by omega) (by omega)]
  · have ha : (UInt8.ofNat (0xe0 + ch.toNat / 4096)).toNat = 0xe0 + ch.toNat / 4096 :=
      toNat_byte (by omega)
    refine decode?_three rest (one_eq_none (by omega)) (two_eq_none (by omega)) ?_
    have hpoint : extend (extend ((0xe0 + ch.toNat / 4096) % 16)
        (UInt8.ofNat (0x80 + ch.toNat / 64 % 64))) (UInt8.ofNat (0x80 + ch.toNat % 64)) =
        ch.toNat := by
      rw [extend, extend, hlowest, hmid]
      omega
    rw [three, ha, if_pos ⟨by omega, by omega, hmiddle, hlow⟩, hpoint,
      charBetween_toNat (by omega) (by omega)]
  · have ha : (UInt8.ofNat (0xf0 + ch.toNat / 262144)).toNat = 0xf0 + ch.toNat / 262144 :=
      toNat_byte (by omega)
    refine decode?_four rest (one_eq_none (by omega)) (two_eq_none (by omega))
      (three_eq_none (by omega)) ?_
    have hpoint : extend (extend (extend ((0xf0 + ch.toNat / 262144) % 8)
        (UInt8.ofNat (0x80 + ch.toNat / 4096 % 64))) (UInt8.ofNat (0x80 + ch.toNat / 64 % 64)))
        (UInt8.ofNat (0x80 + ch.toNat % 64)) = ch.toNat := by
      rw [extend, extend, extend, hlowest, hmid, hupper]
      omega
    rw [four, ha, if_pos ⟨by omega, by omega, hhigh, hmiddle, hlow⟩, hpoint,
      charBetween_toNat (by omega) (by omega)]

/-- **A text is read from its bytes.** -/
theorem decode?_encode (cs : List Char) : decode? (encode cs) = some cs := by
  induction cs with
  | nil => rfl
  | cons ch cs ih =>
    have hcons : encode (ch :: cs) = encodeChar ch ++ encode cs := List.flatMap_cons
    rw [hcons, decode?_encodeChar, ih]
    rfl

end Utf8

end Text

end ApiMock
