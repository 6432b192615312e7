/-!
# Text — texts as bytes

UTF-8 writes characters as one to four bytes. Reading accepts only the
shortest form of a character, and no code point that is none.

Base64 writes bytes with four characters for three of them. Reading is
lenient: characters outside the alphabet do not count, and reading ends at
the padding that completes a group.
-/

namespace ApiMock

namespace Text

namespace Utf8

/-- A byte that goes on with a character. -/
def isTail (b : UInt8) : Bool :=
  0x80 ≤ b.toNat && b.toNat ≤ 0xbf

/-- The six bits that a further byte adds to a code point. -/
def extend (point : Nat) (b : UInt8) : Nat :=
  point * 64 + b.toNat % 64

/-- A code point of a character between two bounds. -/
def charBetween (least most point : Nat) : Option Char :=
  if least ≤ point ∧ point ≤ most ∧ ¬ (0xd800 ≤ point ∧ point ≤ 0xdfff) then
    some (Char.ofNat point)
  else none

/-- A character of one byte. -/
def one (a : UInt8) : Option Char :=
  if a.toNat < 0x80 then some (Char.ofNat a.toNat) else none

/-- A character of two bytes. -/
def two (a b : UInt8) : Option Char :=
  if 0xc0 ≤ a.toNat ∧ a.toNat ≤ 0xdf ∧ isTail b then
    charBetween 0x80 0x7ff (extend (a.toNat % 32) b)
  else none

/-- A character of three bytes. -/
def three (a b c : UInt8) : Option Char :=
  if 0xe0 ≤ a.toNat ∧ a.toNat ≤ 0xef ∧ isTail b ∧ isTail c then
    charBetween 0x800 0xffff (extend (extend (a.toNat % 16) b) c)
  else none

/-- A character of four bytes. -/
def four (a b c d : UInt8) : Option Char :=
  if 0xf0 ≤ a.toNat ∧ a.toNat ≤ 0xf7 ∧ isTail b ∧ isTail c ∧ isTail d then
    charBetween 0x10000 0x10ffff (extend (extend (extend (a.toNat % 8) b) c) d)
  else none

/-- The characters that bytes encode. The first byte tells how many
belong to a character, so at most one of the readings fits. -/
def decode? : List UInt8 → Option (List Char)
  | [] => some []
  | a :: rest =>
    match one a with
    | some ch => (decode? rest).map (ch :: ·)
    | none =>
      match rest with
      | [] => none
      | b :: rest =>
        match two a b with
        | some ch => (decode? rest).map (ch :: ·)
        | none =>
          match rest with
          | [] => none
          | c :: rest =>
            match three a b c with
            | some ch => (decode? rest).map (ch :: ·)
            | none =>
              match rest with
              | [] => none
              | d :: rest =>
                match four a b c d with
                | some ch => (decode? rest).map (ch :: ·)
                | none => none

/-- The bytes of a character. -/
def encodeChar (c : Char) : List UInt8 :=
  let n := c.toNat
  if n < 0x80 then [UInt8.ofNat n]
  else if n < 0x800 then [UInt8.ofNat (0xc0 + n / 64), UInt8.ofNat (0x80 + n % 64)]
  else if n < 0x10000 then
    [UInt8.ofNat (0xe0 + n / 4096), UInt8.ofNat (0x80 + n / 64 % 64), UInt8.ofNat (0x80 + n % 64)]
  else
    [UInt8.ofNat (0xf0 + n / 262144), UInt8.ofNat (0x80 + n / 4096 % 64),
      UInt8.ofNat (0x80 + n / 64 % 64), UInt8.ofNat (0x80 + n % 64)]

/-- The bytes of a text. -/
def encode (cs : List Char) : List UInt8 :=
  cs.flatMap encodeChar

end Utf8

/-- A text with every way of ending a line turned into a line feed. -/
def withLineFeeds : List Char → List Char
  | '\r' :: '\n' :: rest => '\n' :: withLineFeeds rest
  | '\r' :: rest => '\n' :: withLineFeeds rest
  | c :: rest => c :: withLineFeeds rest
  | [] => []

/-! ## Base64 -/

namespace Base64

/-- The six bits of a character of the alphabet. -/
def sextet? (c : Char) : Option Nat :=
  if 'A' ≤ c ∧ c ≤ 'Z' then some (c.toNat - 65)
  else if 'a' ≤ c ∧ c ≤ 'z' then some (c.toNat - 71)
  else if '0' ≤ c ∧ c ≤ '9' then some (c.toNat + 4)
  else if c = '+' then some 62
  else if c = '/' then some 63
  else none

/-- Reads on inside a group: `filled` characters of it are known, `left`
are the bits that do not fill a byte, and `pads` equals signs came last. -/
def readFrom (filled left pads : Nat) : List Char → Option (List UInt8)
  | [] => if filled = 0 then some [] else none
  | c :: rest =>
    if c = '=' then
      if 2 ≤ filled then
        if 4 ≤ filled + pads + 1 then some [] else readFrom filled left (pads + 1) rest
      else readFrom filled left pads rest
    else
      match sextet? c with
      | none => readFrom filled left pads rest
      | some n =>
        match filled with
        | 0 => readFrom 1 n 0 rest
        | 1 => (readFrom 2 (n % 16) 0 rest).map (UInt8.ofNat (left * 4 + n / 16) :: ·)
        | 2 => (readFrom 3 (n % 4) 0 rest).map (UInt8.ofNat (left * 16 + n / 4) :: ·)
        | _ => (readFrom 0 0 0 rest).map (UInt8.ofNat (left * 64 + n) :: ·)

/-- The bytes that a text writes; none if a group is not complete. -/
def read (cs : List Char) : Option (List UInt8) :=
  readFrom 0 0 0 cs

end Base64

end Text

end ApiMock
