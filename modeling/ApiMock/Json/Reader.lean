import ApiMock.Json.Printer
import ApiMock.Text.Digit
import ApiMock.Text.Point
/-!
# JSON — reading

The JSON value that a text writes, by the grammar of the standard. Every
step gives back what is left of the text together with the fact that it
is shorter, so reading ends. A number with a point or an exponent is a
floating-point value, any other a whole number of any size; escapes for
the two halves of a character above the basic plane are put together, and
a half on its own stays a half.
-/

namespace ApiMock

namespace Json

open Text (hexValue? ofPoint)

/-- What is left of a text after at least one character was read. -/
abbrev Shorter (s : List Char) := { r : List Char // r.length < s.length }

/-- A blank of the JSON grammar. -/
def isSpace (c : Char) : Bool :=
  c = ' ' || c = '\t' || c = '\n' || c = '\r'

/-- What is left behind leading blanks. -/
def skipSpace (s : List Char) : List Char :=
  s.dropWhile isSpace

theorem length_skipSpace_le (s : List Char) : (skipSpace s).length ≤ s.length := by
  induction s with
  | nil => simp [skipSpace]
  | cons c rest ih =>
    simp only [skipSpace, List.dropWhile_cons]
    split
    · simp only [skipSpace] at ih
      simp only [List.length_cons]
      omega
    · simp

/-! ## Texts -/

/-- The value of four hexadecimal digits. -/
def unitOf? : List Char → Option Nat
  | [a, b, c, d] => do
    return (((← hexValue? a) * 16 + (← hexValue? b)) * 16 + (← hexValue? c)) * 16 + (← hexValue? d)
  | _ => none

/-- The character that a letter stands for behind a backslash. -/
def letterValue? : Char → Option Char
  | '"' => some '"'
  | '\\' => some '\\'
  | '/' => some '/'
  | 'b' => some (Char.ofNat 8)
  | 'f' => some (Char.ofNat 12)
  | 'n' => some '\n'
  | 'r' => some '\r'
  | 't' => some '\t'
  | _ => none

/-- The first half of a character above the basic plane. -/
def isHighHalf (n : Nat) : Bool := 0xd800 ≤ n && n < 0xdc00

/-- The second half of a character above the basic plane. -/
def isLowHalf (n : Nat) : Bool := 0xdc00 ≤ n && n < 0xe000

/-- Reads one code point of a text, an escape as the one it writes. -/
def readPoint (s : List Char) : Option (Nat × Shorter s) :=
  match s with
  | '\\' :: 'u' :: a :: b :: c :: d :: '\\' :: 'u' :: e :: f :: g :: h :: rest => do
    let high ← unitOf? [a, b, c, d]
    let low ← unitOf? [e, f, g, h]
    if isHighHalf high && isLowHalf low then
      some (0x10000 + (high - 0xd800) * 0x400 + (low - 0xdc00),
        ⟨rest, by simp only [List.length_cons]; omega⟩)
    else
      some (high,
        ⟨'\\' :: 'u' :: e :: f :: g :: h :: rest, by simp only [List.length_cons]; omega⟩)
  | '\\' :: 'u' :: a :: b :: c :: d :: rest => do
    return (← unitOf? [a, b, c, d], ⟨rest, by simp only [List.length_cons]; omega⟩)
  | '\\' :: l :: rest => do
    return ((← letterValue? l).toNat, ⟨rest, by simp only [List.length_cons]; omega⟩)
  | c :: rest =>
    if c.toNat < 0x20 || c = '\\' then none
    else some (c.toNat, ⟨rest, by simp only [List.length_cons]; omega⟩)
  | [] => none

/-- Reads a text up to its closing quote. -/
def readText (s : List Char) : Option (List Char × Shorter s) :=
  match s with
  | '"' :: rest => some ([], ⟨rest, by simp only [List.length_cons]; omega⟩)
  | s =>
    match readPoint s with
    | none => none
    | some (n, ⟨rest, h⟩) =>
      match readText rest with
      | none => none
      | some (cs, ⟨rest', h'⟩) => some (ofPoint n ++ cs, ⟨rest', by omega⟩)
termination_by s.length

/-! ## Numbers -/

/-- The value of a run of decimal digits. -/
def natOf (digits : List Char) : Nat :=
  digits.foldl (fun n c => 10 * n + (c.toNat - 48)) 0

/-- The digits of the whole part: no zero before other digits. -/
def isWholePart : List Char → Bool
  | [] => false
  | ['0'] => true
  | c :: _ => c ≠ '0'

/-- A number by its written parts. `exponent` is the text behind the
letter, with its sign. -/
def numberOf? (negative : Bool) (whole : List Char) (fraction exponent : Option (List Char)) :
    Option Json :=
  let signed := fun (n : Nat) => if negative then -(n : Int) else (n : Int)
  if !isWholePart whole || fraction.any (·.isEmpty) then none
  else
    match fraction, exponent with
    | none, none => some (int (signed (natOf whole)))
    | fraction, exponent =>
      let places := fraction.getD []
      let scale : Option Int :=
        match exponent with
        | none => some 0
        | some ('-' :: ds) => if ds.isEmpty then none else some (-(natOf ds : Int))
        | some ('+' :: ds) => if ds.isEmpty then none else some (natOf ds)
        | some ds => if ds.isEmpty then none else some (natOf ds)
      scale.map fun e =>
        float (Binary64.ofDecimal negative (natOf (whole ++ places)) (e - places.length))

/-- Splits off leading digits. -/
def digits (s : List Char) : List Char × List Char :=
  s.span Char.isDigit

/-- Splits off a fraction, if one follows. -/
def fractionPart (s : List Char) : Option (List Char) × List Char :=
  match s with
  | '.' :: rest => (some (digits rest).1, (digits rest).2)
  | s => (none, s)

/-- Splits off an exponent, if one follows. -/
def exponentPart (s : List Char) : Option (List Char) × List Char :=
  match s with
  | c :: rest =>
    if c = 'e' || c = 'E' then
      match rest with
      | sign :: more =>
        if sign = '-' || sign = '+' then (some (sign :: (digits more).1), (digits more).2)
        else (some (digits rest).1, (digits rest).2)
      | [] => (some [], [])
    else (none, s)
  | [] => (none, [])

/-- Reads a number. -/
def readNumber (s : List Char) : Option (Json × List Char) :=
  let (negative, s) := match s with
    | '-' :: rest => (true, rest)
    | s => (false, s)
  let (whole, s) := digits s
  let (fraction, s) := fractionPart s
  let (exponent, s) := exponentPart s
  (numberOf? negative whole fraction exponent).map (·, s)

/-! ## Values -/

/-- Reads a word that stands for a value. -/
def readWord (s : List Char) : Option (Json × List Char) :=
  match s with
  | 'n' :: 'u' :: 'l' :: 'l' :: rest => some (null, rest)
  | 't' :: 'r' :: 'u' :: 'e' :: rest => some (bool true, rest)
  | 'f' :: 'a' :: 'l' :: 's' :: 'e' :: rest => some (bool false, rest)
  | s => readNumber s

mutual
/-- Reads a value. -/
def readValue (s : List Char) : Option (Json × Shorter s) :=
  match s with
  | '"' :: rest =>
    match readText rest with
    | none => none
    | some (cs, ⟨r, h⟩) =>
      some (str (String.ofList cs), ⟨r, by simp only [List.length_cons]; omega⟩)
  | '[' :: rest =>
    have := length_skipSpace_le rest
    match hs : skipSpace rest with
    | ']' :: r => some (arr [], ⟨r, by rw [hs] at this; simp only [List.length_cons] at *; omega⟩)
    | _ =>
      match readItems (skipSpace rest) with
      | none => none
      | some (items, ⟨r, h⟩) => some (arr items, ⟨r, by simp only [List.length_cons]; omega⟩)
  | '\x7b' :: rest =>
    have := length_skipSpace_le rest
    match hs : skipSpace rest with
    | '\x7d' :: r =>
      some (obj [], ⟨r, by rw [hs] at this; simp only [List.length_cons] at *; omega⟩)
    | _ =>
      match readEntries (skipSpace rest) with
      | none => none
      | some (es, ⟨r, h⟩) => some (obj es, ⟨r, by simp only [List.length_cons]; omega⟩)
  | s =>
    match readWord s with
    | none => none
    | some (j, r) => if h : r.length < s.length then some (j, ⟨r, h⟩) else none
termination_by 2 * s.length
decreasing_by all_goals simp only [List.length_cons]; omega

/-- Reads the elements of an array up to its closing bracket. -/
def readItems (s : List Char) : Option (List Json × Shorter s) :=
  match readValue s with
  | none => none
  | some (j, ⟨r, h⟩) =>
    have := length_skipSpace_le r
    match hs : skipSpace r with
    | ']' :: r' =>
      some ([j], ⟨r', by rw [hs] at this; simp only [List.length_cons] at *; omega⟩)
    | ',' :: r' =>
      have := length_skipSpace_le r'
      match readItems (skipSpace r') with
      | none => none
      | some (items, ⟨r'', h''⟩) =>
        some (j :: items, ⟨r'', by simp_all only [List.length_cons]; omega⟩)
    | _ => none
termination_by 2 * s.length + 1
decreasing_by
  · omega
  · simp_all only [List.length_cons]
    omega

/-- Reads the entries of an object up to its closing brace. -/
def readEntries (s : List Char) : Option (List (String × Json) × Shorter s) :=
  match s with
  | '"' :: rest =>
    match readText rest with
    | none => none
    | some (key, ⟨r, h⟩) =>
      have := length_skipSpace_le r
      match hs : skipSpace r with
      | ':' :: r1 =>
        have := length_skipSpace_le r1
        match readValue (skipSpace r1) with
        | none => none
        | some (j, ⟨r2, h2⟩) =>
          have := length_skipSpace_le r2
          match hs' : skipSpace r2 with
          | '\x7d' :: r3 =>
            some ([(String.ofList key, j)], ⟨r3, by simp_all only [List.length_cons]; omega⟩)
          | ',' :: r3 =>
            have := length_skipSpace_le r3
            match readEntries (skipSpace r3) with
            | none => none
            | some (es, ⟨r4, h4⟩) =>
              some ((String.ofList key, j) :: es, ⟨r4, by simp_all only [List.length_cons]; omega⟩)
          | _ => none
      | _ => none
  | _ => none
termination_by 2 * s.length + 1
decreasing_by
  · simp_all only [List.length_cons]
    omega
  · simp_all only [List.length_cons]
    omega
end

/-- The value that a whole text writes, blanks around it aside. -/
def parse (text : List Char) : Option Json :=
  match readValue (skipSpace text) with
  | none => none
  | some (j, ⟨r, _⟩) => if (skipSpace r).isEmpty then some j else none

end Json

end ApiMock
