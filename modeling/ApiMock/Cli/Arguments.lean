import ApiMock.Cli.Parameter
/-!
# Cli — reading the arguments

Cuts a command line into switches with their values and operands. A value
stands behind its switch, behind an equals sign, or directly behind a
switch of one letter. Two dashes alone end the switches. The program as a
whole takes no switch behind the first operand, which names the command.

A switch that is not known is answered with those that are similar. How
similar two words are is told by the longest stretch that occurs in both,
and what is in common before it and behind it: at least three fifths of
their characters must be in common.
-/

namespace ApiMock

/-! ## Similar words -/

namespace Text

/-- The number of characters that two words both start with. -/
def commonStart : List Char → List Char → Nat
  | a :: as, b :: bs => if a = b then commonStart as bs + 1 else 0
  | _, _ => 0

/-- A stretch that occurs in two words: where it starts in each, and how
long it is. -/
structure Stretch where
  first : Nat
  second : Nat
  length : Nat
  deriving Repr

/-- All stretches that two words have in common, by their starts. -/
def stretches (a b : List Char) : List Stretch :=
  (List.range a.length).flatMap fun i =>
    (List.range b.length).map fun j => ⟨i, j, commonStart (a.drop i) (b.drop j)⟩

/-- The longest common stretch; of several the one that starts first. -/
def longestStretch (a b : List Char) : Stretch :=
  (stretches a b).foldl (fun best s => if best.length < s.length then s else best) ⟨0, 0, 0⟩

/-- The number of characters in common, with a bound for the recursion. -/
def commonWithin : Nat → List Char → List Char → Nat
  | 0, _, _ => 0
  | fuel + 1, a, b =>
    let s := longestStretch a b
    if s.length = 0 then 0
    else
      commonWithin fuel (a.take s.first) (b.take s.second) + s.length +
        commonWithin fuel (a.drop (s.first + s.length)) (b.drop (s.second + s.length))

/-- The number of characters that two words have in common. -/
def common (a b : List Char) : Nat :=
  commonWithin (a.length + 1) a b

/-- A word with what it has in common with another one, as a fraction of
both words' length. -/
structure Likeness where
  word : String
  common : Nat
  total : Nat
  deriving Repr

/-- How like a word is to a given one. -/
def likeness (given word : String) : Likeness :=
  ⟨word, 2 * common word.toList given.toList, word.length + given.length⟩

/-- Order of likeness, the greatest first; of equal ones the later word. -/
def Likeness.before (x y : Likeness) : Bool :=
  let left := x.common * y.total
  let right := y.common * x.total
  right < left || (left = right && y.word ≤ x.word)

/-- The words most like a given one, three at most, in alphabetical
order. -/
def similar (given : String) (words : List String) : List String :=
  let near := (words.map (likeness given)).filter fun l => 3 * l.total ≤ 5 * l.common
  (((near.mergeSort Likeness.before).take 3).map (·.word)).mergeSort

end Text

/-! ## Cutting a command line -/

namespace Cli

/-- What a switch sets a parameter to. -/
inductive Given where
  | text (s : String)
  | flag (b : Bool)
  deriving Repr

/-- The parameters that switches set, in order, and the operands. -/
structure Arguments where
  given : List (Parameter × Given)
  operands : List String
  deriving Repr

/-- What one argument sets, and the switch that waits for its value. -/
structure Read where
  given : List (Parameter × Given)
  waiting : Option Switch

/-- An argument that is a switch, or more than one. -/
def isSwitch (arg : String) : Bool :=
  arg.toList.head? = some '-' && 1 < arg.length

/-- A word switch, with the value behind an equals sign. -/
def readLong (s : Switch) (value : Option String) : Except Problem Read :=
  match s.setting, value with
  | some b, none => .ok ⟨[(s.parameter, .flag b)], none⟩
  | some _, some _ => .error (.takesNoValue s.name)
  | none, some v => .ok ⟨[(s.parameter, .text v)], none⟩
  | none, none => .ok ⟨[], some s⟩

/-- Switches of one letter behind a common dash. -/
def readShort (c : Command) : List Char → Except Problem Read
  | [] => .ok ⟨[], none⟩
  | letter :: rest =>
    let name := String.ofList ['-', letter]
    match c.switch? name with
    | none => .error (.unknownSwitch name [])
    | some s =>
      match s.setting with
      | some b => do
        let more ← readShort c rest
        return ⟨(s.parameter, .flag b) :: more.given, more.waiting⟩
      | none =>
        if rest.isEmpty then .ok ⟨[], some s⟩
        else .ok ⟨[(s.parameter, .text (String.ofList rest))], none⟩

/-- An argument before and behind its first equals sign. -/
def splitValue (arg : String) : String × Option String :=
  match arg.toList.span (· ≠ '=') with
  | (name, _ :: value) => (String.ofList name, some (String.ofList value))
  | (name, []) => (String.ofList name, none)

/-- Reads an argument that is a switch. -/
def readSwitch (c : Command) (arg : String) : Except Problem Read :=
  let (name, value) := splitValue arg
  match c.longSwitches.find? fun s => s.name = name with
  | some s => readLong s value
  | none =>
    if isLong arg then
      .error (.unknownSwitch name (Text.similar name (c.longSwitches.map (·.name))))
    else readShort c (arg.toList.drop 1)

/-- Adds what an argument sets in front of what later ones do. -/
def Arguments.prepend (given : List (Parameter × Given)) (a : Arguments) : Arguments :=
  { a with given := given ++ a.given }

/-- Reads the arguments of a command. -/
def Arguments.read (c : Command) : List String → Except Problem Arguments
  | [] => .ok ⟨[], []⟩
  | arg :: rest =>
    if arg = "--" then .ok ⟨[], rest⟩
    else if isSwitch arg then
      match readSwitch c arg with
      | .error p => .error p
      | .ok ⟨given, none⟩ => do return (← Arguments.read c rest).prepend given
      | .ok ⟨given, some s⟩ =>
        match rest with
        | [] => .error (.needsValue s.name)
        | value :: rest => do
          return (← Arguments.read c rest).prepend (given ++ [(s.parameter, .text value)])
    else if c = .top then .ok ⟨[], arg :: rest⟩
    else do
      let more ← Arguments.read c rest
      return { more with operands := arg :: more.operands }

/-- What a parameter was set to last. -/
def Arguments.value? (a : Arguments) (p : Parameter) : Option Given :=
  a.given.reverse.lookup p

/-- Whether help or the version is asked for first, if either is. -/
def Arguments.eager? (a : Arguments) : Option Parameter :=
  (a.given.map (·.1)).find? fun p => p = .help || p = .version

end Cli

end ApiMock
