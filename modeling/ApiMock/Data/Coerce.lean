import ApiMock.Data.Fields
import ApiMock.Number.Lenient
/-!
# Data — lenient reading

Settings and schema facts are read leniently: a truth value may be
written as a number or a word, a number as a text, and a text as bytes.
Each reader gives the value or the reason for refusing it.
-/

namespace ApiMock

namespace Coerce

/-- What something is read from that stands in a text or in bytes: its
characters. A text may hold no half of a character; bytes that encode
nothing are refused for the reason `unclear`. -/
def written? (unclear : String) (d : Data) : Option (Except String (List Char)) :=
  match d with
  | .scalar (.str s) =>
    match Text.chars? s.toList with
    | some cs => some (.ok cs)
    | none => some (.error Data.textUnclear)
  | .scalar (.bytes b) =>
    match Text.Utf8.decode? b with
    | some cs => some (.ok cs)
    | none => some (.error unclear)
  | _ => none

/-- What a field says that needed a truth value. -/
def truthExpected : String := "Input should be a valid boolean"

/-- What a field says that needed a truth value and cannot make one of this. -/
def truthUnclear : String := "Input should be a valid boolean, unable to interpret input"

/-- The words for true. -/
def trueWords : List String := ["1", "true", "t", "yes", "y", "on"]

/-- The words for false. -/
def falseWords : List String := ["0", "false", "f", "no", "n", "off"]

/-- The bound that whole numbers of sixty-four bits stay below. -/
def wordBound : Int := twoTo 63

/-- The truth value of a whole number. -/
def truthOfInt (n : Int) : Except String Bool :=
  if n = 0 then .ok false
  else if n = 1 then .ok true
  else if -wordBound ≤ n ∧ n < wordBound then .error truthUnclear
  else .error truthExpected

/-- The truth value of a word. -/
def truthOfWord (cs : List Char) : Except String Bool :=
  let word := String.ofList (cs.map Char.toLower)
  if trueWords.contains word then .ok true
  else if falseWords.contains word then .ok false
  else .error truthUnclear

/-- A truth value, a number that is zero or one, or a word for one. -/
def truth (d : Data) : Except String Bool :=
  match d with
  | .scalar (.bool b) => .ok b
  | .scalar (.int n) => truthOfInt n
  | .scalar (.float x) =>
    match x.toInt? with
    | some n => truthOfInt n
    | none => .error truthExpected
  | d =>
    match written? truthUnclear d with
    | some cs => cs.bind truthOfWord
    | none => .error truthExpected

/-- What a field says whose number has too many digits. -/
def tooLong : String := "Unable to parse input string as an integer, exceeded maximum size"

/-- What a field says that needed a whole number and cannot read one. -/
def intUnclear : String :=
  "Input should be a valid integer, unable to parse string as an integer"

/-- The whole number of a numeral. -/
def intOfNumeral (cs : List Char) : Except String Int :=
  match Number.lenientInt cs with
  | .value n => .ok n
  | .tooLong => .error tooLong
  | .unreadable => .error intUnclear

/-- A whole number, a truth value, or a numeral. -/
def int (d : Data) : Except String Int :=
  match d with
  | .scalar (.int n) => .ok n
  | .scalar (.bool b) => .ok (if b then 1 else 0)
  | .scalar (.float x) =>
    if !x.isFinite then .error "Input should be a finite number"
    else
      match x.toInt? with
      | none => .error "Input should be a valid integer, got a number with a fractional part"
      | some n => if n.natAbs < twoTo 63 then .ok n else .error tooLong
  | d =>
    match written? intUnclear d with
    | some cs => cs.bind intOfNumeral
    | none => .error "Input should be a valid integer"

/-- What a field says that needed a number and cannot read one. -/
def floatUnclear : String :=
  "Input should be a valid number, unable to parse string as a number"

/-- The number of a numeral. -/
def floatOfNumeral (cs : List Char) : Except String Binary64 :=
  match Number.lenientFloat? cs with
  | some x => .ok x
  | none => .error floatUnclear

/-- A number, a truth value, or a numeral. -/
def float (d : Data) : Except String Binary64 :=
  match d with
  | .scalar (.float x) => .ok x
  | .scalar (.bool b) => .ok (Binary64.ofInt (if b then 1 else 0))
  | .scalar (.int n) =>
    let x := Binary64.ofInt n
    if x.isFinite then .ok x else .error "Input should be a valid number"
  | d =>
    match written? floatUnclear d with
    | some cs => cs.bind floatOfNumeral
    | none => .error "Input should be a valid number"

/-- What a number says that may not be negative. -/
def negative : String := "Input should be greater than or equal to 0"

/-- A whole number that is not negative. -/
def count (d : Data) : Except String Nat := do
  let n ← int d
  if n < 0 then .error negative else .ok n.toNat

/-- A number above zero. -/
def positive (d : Data) : Except String Binary64 := do
  let x ← float d
  if (Binary64.zero false).below x then .ok x else .error "Input should be greater than 0"

/-- A number from zero to one. -/
def share (d : Data) : Except String Binary64 := do
  let x ← float d
  if x.below (Binary64.zero false) then .error negative
  else if x.below (Binary64.ofInt 1) || x.isInt 1 then .ok x
  else .error "Input should be less than or equal to 1"

/-- Words as a choice: `'a', 'b' or 'c'`. -/
def choiceText : List String → String
  | [] => ""
  | [a] => s!"'{a}'"
  | [a, b] => s!"'{a}' or '{b}'"
  | a :: rest => s!"'{a}', " ++ choiceText rest

/-- What a field says that needed one of some words. -/
def choiceExpected (choices : List String) : String :=
  "Input should be " ++ choiceText choices

/-- One of some words, as a text. -/
def literal (choices : List String) (d : Data) : Except String String :=
  match d with
  | .scalar (.str s) =>
    if (Text.chars? s.toList).isNone then .error Data.textUnclear
    else if choices.contains s then .ok s
    else .error (choiceExpected choices)
  | _ => .error (choiceExpected choices)

/-- One of some words, as a text or as the bytes that encode it. -/
def word (choices : List String) (d : Data) : Except String String :=
  match d with
  | .scalar (.bytes b) =>
    match Text.ofBytes? b with
    | some s => literal choices (.str s)
    | none => .error (choiceExpected choices)
  | d => literal choices d

end Coerce

end ApiMock
