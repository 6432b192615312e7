import ApiMock.Proofs.Json.Texts
import ApiMock.Proofs.Sequence
import ApiMock.Proofs.Text.Words
import ApiMock.TypeScript.TypeExpr
/-!
# TypeScript — argument lists and the variables of an expression

How the text of an argument list is read, whoever wrote it. It is cut at the
commas that stand neither between braces nor in a text between double
quotes. The name of an argument goes up to the first question mark or colon,
and the argument may be left out if that is a question mark.

And which variables the text of an expression mentions: its words, except
for what is called, what is a member of something, and what stands between
single quotes.
-/

namespace ApiMock

namespace TypeScript

/-! ## Reading an argument list -/

/-- Where one stands in a text: between so many braces, and there in a text
between double quotes or behind a backslash in one. -/
inductive Place where
  | code (depth : Nat)
  | quoted (depth : Nat)
  | escaped (depth : Nat)
  deriving DecidableEq

/-- Where one stands behind a character. -/
def Place.after : Place → Char → Place
  | .code n, c =>
    if c = '"' then .quoted n
    else if c = '\x7b' then .code (n + 1)
    else if c = '\x7d' then .code (n - 1)
    else .code n
  | .quoted n, c => if c = '"' then .code n else if c = '\\' then .escaped n else .quoted n
  | .escaped n, _ => .quoted n

/-- The pieces of a text between the commas that stand outside of braces and
quotes; always one more than there are such commas. -/
def cutArguments : Place → List Char → List (List Char)
  | _, [] => [[]]
  | place, c :: rest =>
    if place = .code 0 ∧ c = ',' then [] :: cutArguments place rest
    else
      match cutArguments (place.after c) rest with
      | piece :: others => (c :: piece) :: others
      | [] => [[c]]

/-- The character does not belong to the name of an argument. -/
def endsName (c : Char) : Bool := c = '?' || c = ':'

/-- The name of an argument, and whether it may be left out. -/
def readArgument (piece : List Char) : String × Bool :=
  let text := piece.dropWhile (· = ' ')
  (String.ofList (text.takeWhile fun c => !endsName c),
    (text.dropWhile fun c => !endsName c).head? = some '?')

/-- The arguments of an argument list. An empty text lists none. -/
def readArguments (text : String) : List (String × Bool) :=
  if text.isEmpty then [] else (cutArguments (.code 0) text.toList).map readArgument

example : readArguments "id: string, params: \x7b \"a,b\"?: any; \x7d = \x7b\x7d, body?: any" =
    [("id", false), ("params", false), ("body", true)] := by decide

/-! ## Texts that are not cut -/

/-- The text leads from one place to another, and none of its commas cuts. -/
inductive Passes : Place → List Char → Place → Prop where
  | nil {place : Place} : Passes place [] place
  | cons {place last : Place} {c : Char} {cs : List Char} (hc : ¬ (place = .code 0 ∧ c = ','))
      (onward : Passes (place.after c) cs last) : Passes place (c :: cs) last

/-- The text leads back to where it starts, between any braces. -/
def Balanced (cs : List Char) : Prop := ∀ n, Passes (.code n) cs (.code n)

variable {place next last : Place} {xs ys cs rest piece : List Char} {others : List (List Char)}
  {n : Nat}

theorem Passes.append (h : Passes place xs next) (h' : Passes next ys last) :
    Passes place (xs ++ ys) last := by
  induction h with
  | nil => exact h'
  | cons hc _ ih => exact .cons hc (ih h')

/-- **What is passed stays in one piece** with what follows. -/
theorem Passes.cut (h : Passes place cs next) (hrest : cutArguments next rest = piece :: others) :
    cutArguments place (cs ++ rest) = (cs ++ piece) :: others := by
  induction h with
  | nil => exact hrest
  | cons hc _ ih =>
    rw [List.cons_append, cutArguments, if_neg hc, ih hrest]
    rfl

namespace Balanced

theorem nil : Balanced [] := fun _ => .nil

theorem append (h : Balanced xs) (h' : Balanced ys) : Balanced (xs ++ ys) :=
  fun n => (h n).append (h' n)

/-- A text of other characters than braces, quotes and commas. -/
theorem of_plain (h : ∀ c ∈ cs, c ∉ ['"', '\x7b', '\x7d', ',']) : Balanced cs := by
  intro n
  induction cs with
  | nil => exact .nil
  | cons c cs ih =>
    obtain ⟨hc, hcs⟩ := List.forall_mem_cons.mp h
    simp only [List.mem_cons, List.not_mem_nil, or_false, not_or] at hc
    obtain ⟨hquote, hopen, hclose, hcomma⟩ := hc
    have hstay : (Place.code n).after c = .code n := by
      rw [Place.after, if_neg hquote, if_neg hopen, if_neg hclose]
    refine .cons (fun hcut => hcomma hcut.2) ?_
    rw [hstay]
    exact ih hcs

/-- A balanced text between braces. -/
theorem braces (h : Balanced cs) : Balanced ('\x7b' :: (cs ++ ['\x7d'])) := by
  intro n
  have hopen : Passes (.code n) ['\x7b'] (.code (n + 1)) :=
    .cons (fun hcut => absurd hcut.2 (by decide)) .nil
  have hclose : Passes (.code (n + 1)) ['\x7d'] (.code n) :=
    .cons (fun hcut => absurd hcut.2 (by decide)) .nil
  exact hopen.append ((h (n + 1)).append hclose)

theorem intercalate {sep : List Char} {parts : List (List Char)} (hsep : Balanced sep)
    (h : ∀ part ∈ parts, Balanced part) : Balanced (List.intercalate sep parts) :=
  Sequence.intercalate_closed nil (fun _ _ hx hy => hx.append hy) hsep h

end Balanced

/-! ### Texts between double quotes -/

/-- In a text between quotes, other characters than quotes and backslashes
lead nowhere else. -/
theorem passes_quoted (h : ∀ c ∈ cs, c ≠ '"' ∧ c ≠ '\\') : Passes (.quoted n) cs (.quoted n) := by
  induction cs with
  | nil => exact .nil
  | cons c cs ih =>
    obtain ⟨⟨hquote, hslash⟩, hcs⟩ := List.forall_mem_cons.mp h
    have hstay : (Place.quoted n).after c = .quoted n := by
      rw [Place.after, if_neg hquote, if_neg hslash]
    refine .cons (fun hcut => Place.noConfusion hcut.1) ?_
    rw [hstay]
    exact ih hcs

/-- Neither does a character behind a backslash, with others behind it. -/
theorem passes_escape {c : Char} (h : ∀ c ∈ cs, c ≠ '"' ∧ c ≠ '\\') :
    Passes (.quoted n) ('\\' :: c :: cs) (.quoted n) :=
  .cons (fun hcut => Place.noConfusion hcut.1)
    (.cons (fun hcut => Place.noConfusion hcut.1) (passes_quoted h))

theorem passes_escapeUnit (m : Nat) : Passes (.quoted n) (Json.escapeUnit m) (.quoted n) := by
  refine passes_escape fun c hc => ?_
  have hdigits : ∀ d < 16, Text.hexDigit d ≠ '"' ∧ Text.hexDigit d ≠ '\\' := by decide
  obtain ⟨i, -, rfl⟩ := List.mem_map.mp hc
  exact hdigits _ (Nat.mod_lt _ (by decide))

/-- A code point in any of its ways of writing does not end the text. -/
theorem passes_writes {m : Nat} (h : Json.Writes m cs) : Passes (.quoted n) cs (.quoted n) := by
  cases h with
  | plain c hcontrol hquote hslash => exact passes_quoted (by simp [hquote, hslash])
  | letter l c h => exact passes_escape (by simp)
  | unit h => exact passes_escapeUnit m
  | halves hlow hhigh => exact (passes_escapeUnit _).append (passes_escapeUnit _)

/-- **A text between double quotes is balanced**, whatever stands in it. -/
theorem balanced_quote (s : String) : Balanced (Json.quote s).toList := by
  intro n
  -- a quote in the text is written behind a backslash, so none of its own ends it
  have hinner : ∀ ms : List Nat, (∀ m ∈ ms, m < 0x110000) →
      Passes (.quoted n) (ms.flatMap Json.escapePoint) (.quoted n) := by
    intro ms hms
    induction ms with
    | nil => exact .nil
    | cons m ms ih =>
      obtain ⟨hm, hrest⟩ := List.forall_mem_cons.mp hms
      rw [List.flatMap_cons]
      exact (passes_writes (Json.writes_escapePoint hm)).append (ih hrest)
  have hopen : Passes (.code n) ['"'] (.quoted n) :=
    .cons (fun hcut => absurd hcut.2 (by decide)) .nil
  have hclose : Passes (.quoted n) ['"'] (.code n) :=
    .cons (fun hcut => Place.noConfusion hcut.1) .nil
  rw [Json.quote, String.toList_ofList]
  exact (hopen.append (hinner _ Text.points_lt)).append hclose

/-! ### Lists of arguments -/

/-- Blanks in front of an argument are not read. -/
theorem readArgument_blank : readArgument (' ' :: piece) = readArgument piece := rfl

/-- The name of an argument is what stands in front of the mark behind it. -/
theorem readArgument_append {name : String} {mark : Char} (hname : ∀ c ∈ name.toList,
    c ≠ ' ' ∧ endsName c = false) (hmark : endsName mark = true) :
    readArgument (name.toList ++ mark :: rest) = (name, decide (mark = '?')) := by
  have hblank : (name.toList ++ mark :: rest).dropWhile (· = ' ') = name.toList ++ mark :: rest := by
    cases hcs : name.toList with
    | nil =>
      have hne : mark ≠ ' ' := by
        rintro rfl
        exact absurd hmark (by decide)
      simp [hne]
    | cons c cs =>
      have hne : c ≠ ' ' := (hname c (by simp [hcs])).1
      simp [hne]
  have hinside : ∀ c ∈ name.toList, (!endsName c) = true := by
    intro c hc
    rw [(hname c hc).2]
    rfl
  have houtside : (mark :: rest).head?.any (fun c => !endsName c) = false := by
    simp [hmark]
  obtain ⟨htake, hdrop⟩ := Text.takeWhile_word hinside houtside
  rw [readArgument, hblank, htake, hdrop, String.ofList_toList]
  simp

theorem cutArguments_ne_nil : cutArguments place cs ≠ [] := by
  cases cs with
  | nil => exact List.cons_ne_nil _ _
  | cons c rest =>
    rw [cutArguments]
    split_ifs
    · exact List.cons_ne_nil _ _
    · split <;> exact List.cons_ne_nil _ _

/-- A comma behind a balanced argument cuts, and the blank behind it is not read. -/
theorem readArgument_comma (h : Balanced piece) :
    (cutArguments (.code 0) (piece ++ ',' :: ' ' :: rest)).map readArgument =
      readArgument piece :: (cutArguments (.code 0) rest).map readArgument := by
  have hpieces : cutArguments (.code 0) rest ≠ [] := cutArguments_ne_nil
  obtain ⟨next, others, hrest⟩ := List.exists_cons_of_ne_nil hpieces
  have hspace : Balanced [' '] := .of_plain (by decide)
  have hblank : cutArguments (.code 0) (' ' :: rest) = (' ' :: next) :: others :=
    (hspace 0).cut hrest
  have hcomma : cutArguments (.code 0) (',' :: ' ' :: rest) = [] :: (' ' :: next) :: others := by
    rw [cutArguments, if_pos ⟨rfl, rfl⟩, hblank]
  rw [(h 0).cut hcomma, List.append_nil, hrest, List.map_cons, List.map_cons, List.map_cons,
    readArgument_blank]

/-- Balanced arguments with commas between them are read one by one. -/
theorem readArgument_pieces {pieces : List (List Char)} (h : ∀ piece ∈ pieces, Balanced piece)
    (hne : pieces ≠ []) :
    (cutArguments (.code 0) (List.intercalate [',', ' '] pieces)).map readArgument =
      pieces.map readArgument := by
  induction pieces with
  | nil => exact absurd rfl hne
  | cons piece pieces ih =>
    obtain ⟨hpiece, hpieces⟩ := List.forall_mem_cons.mp h
    cases pieces with
    | nil =>
      have hcut : cutArguments (.code 0) (piece ++ []) = [piece ++ []] := (hpiece 0).cut rfl
      rw [List.append_nil] at hcut
      rw [List.intercalate_singleton, hcut]
    | cons other pieces =>
      rw [List.intercalate_cons_cons, List.append_assoc, List.cons_append, List.singleton_append,
        readArgument_comma hpiece, ih hpieces (List.cons_ne_nil _ _), ← List.map_cons]

/-- **A list of balanced arguments is read argument by argument.** -/
theorem readArguments_intercalate {parts : List String} (h : ∀ part ∈ parts, Balanced part.toList)
    (hne : ∀ part ∈ parts, part ≠ "") :
    readArguments (String.intercalate ", " parts) =
      parts.map fun part => readArgument part.toList := by
  cases parts with
  | nil => rfl
  | cons part parts =>
    have hfirst : ∃ more, (String.intercalate ", " (part :: parts)).toList = part.toList ++ more := by
      rw [String.toList_intercalate, List.map_cons]
      cases parts with
      | nil =>
        rw [List.map_nil, List.intercalate_singleton]
        exact ⟨[], (List.append_nil _).symm⟩
      | cons other parts =>
        rw [List.map_cons, List.intercalate_cons_cons, List.append_assoc]
        exact ⟨_, rfl⟩
    have hsome : ¬ (String.intercalate ", " (part :: parts)).isEmpty = true := by
      obtain ⟨more, hmore⟩ := hfirst
      rw [String.isEmpty_iff, ← String.toList_eq_nil_iff, hmore, List.append_eq_nil_iff,
        String.toList_eq_nil_iff]
      exact fun hnil => hne part List.mem_cons_self hnil.1
    have hpieces : ∀ piece ∈ (part :: parts).map String.toList, Balanced piece :=
      List.forall_mem_map.mpr h
    have hall := readArgument_pieces hpieces (List.cons_ne_nil _ _)
    rw [readArguments, if_neg hsome, String.toList_intercalate]
    exact hall.trans (List.map_map)

/-! ## Reading the variables of an expression -/

/-- A character that ends a word. -/
def endsWord (c : Char) : Bool :=
  c ∈ [' ', '(', ')', ',', '.', '?', '\x7b', '\x7d', '\'']

/-- What is known of an expression at some place: the word that one is in,
whether it is a member of something, whether one is between single quotes,
and the variables so far. -/
structure Reading where
  word : List Char
  isMember : Bool
  isQuoted : Bool
  found : List String
  deriving DecidableEq

namespace Reading

/-- Before the expression. -/
def start : Reading := ⟨[], false, false, []⟩

/-- At the end of a word: it is a variable unless it is a member or called. -/
def close (r : Reading) (c : Char) : List String :=
  if r.word.isEmpty || r.isMember || c = '(' then r.found
  else r.found ++ [String.ofList r.word]

/-- Behind one more character. -/
def step (r : Reading) (c : Char) : Reading :=
  if r.isQuoted then { r with isQuoted := c ≠ '\'' }
  else if endsWord c then ⟨[], c = '.', c = '\'', r.close c⟩
  else { r with word := r.word ++ [c] }

/-- Behind more characters. -/
def run (r : Reading) (cs : List Char) : Reading := cs.foldl step r

end Reading

/-- The variables that an expression mentions. A blank behind it ends its
last word. -/
def variablesOf (text : String) : List String :=
  ((Reading.start.run text.toList).step ' ').found

example : variablesOf "String(body?.id ?? 'none'), params" = ["body", "params"] := by decide

namespace Reading

variable {r : Reading} {fs : List String} {c : Char}

theorem run_append : r.run (xs ++ ys) = (r.run xs).run ys := List.foldl_append

/-- A text without an end of a word adds to the word. -/
theorem run_word (h : ∀ c ∈ cs, endsWord c = false) (hquoted : r.isQuoted = false) :
    r.run cs = { r with word := r.word ++ cs } := by
  induction cs generalizing r with
  | nil => rw [List.append_nil]; rfl
  | cons c cs ih =>
    obtain ⟨hc, hcs⟩ := List.forall_mem_cons.mp h
    have hstep : r.step c = { r with word := r.word ++ [c] } := by
      rw [step, hquoted, hc]
      rfl
    have hrun : r.run (c :: cs) = (r.step c).run cs := rfl
    have hrest := ih (r := { r with word := r.word ++ [c] }) hcs hquoted
    rw [hrun, hstep, hrest, List.append_assoc]
    rfl

/-- The same with variables found before. -/
def behind (r : Reading) (fs : List String) : Reading := { r with found := fs ++ r.found }

/-- What was found before stays and changes nothing else. -/
theorem step_behind : (r.behind fs).step c = (r.step c).behind fs := by
  have hclose : (r.behind fs).close c = fs ++ r.close c := by
    rw [close, close, behind]
    split
    · rfl
    · exact List.append_assoc _ _ _
  have hquoted : (r.behind fs).isQuoted = r.isQuoted := rfl
  rw [step, step, hclose, hquoted]
  split_ifs <;> rfl

theorem run_behind : (r.behind fs).run cs = (r.run cs).behind fs := by
  induction cs generalizing r with
  | nil => rfl
  | cons c cs ih =>
    have hrun : ∀ r : Reading, r.run (c :: cs) = (r.step c).run cs := fun _ => rfl
    rw [hrun, hrun, step_behind, ih]

end Reading

/-- Behind a comma one starts anew, if no text is open there. -/
theorem run_separated {first other : String}
    (hclosed : (Reading.start.run first.toList).isQuoted = false) :
    Reading.start.run (first ++ ", " ++ other).toList =
      (Reading.start.run other.toList).behind (variablesOf first) := by
  have hends : endsWord ',' = true ∧ endsWord ' ' = true := by decide
  have hcomma : (Reading.start.run first.toList).step ',' =
      ⟨[], false, false, (Reading.start.run first.toList).close ' '⟩ := by
    rw [Reading.step, hclosed, hends.1]
    rfl
  have hfound : variablesOf first = (Reading.start.run first.toList).close ' ' := by
    rw [variablesOf, Reading.step, hclosed, hends.2]
    rfl
  have hseparator : (Reading.start.run first.toList).run ", ".toList =
      Reading.start.behind (variablesOf first) := by
    have hsteps : (Reading.start.run first.toList).run ", ".toList =
        ((Reading.start.run first.toList).step ',').step ' ' := rfl
    rw [hsteps, hcomma, ← hfound]
    simp [Reading.step, hends.2, Reading.close, Reading.behind, Reading.start]
  rw [String.toList_append, String.toList_append, Reading.run_append, Reading.run_append,
    hseparator, Reading.run_behind]

/-- The argument of a call is read, and the name of what is called is not. -/
theorem run_call {name : String} (hne : name ≠ "") (h : ∀ c ∈ name.toList, endsWord c = false) :
    Reading.start.run ("String(" ++ name ++ ")").toList = ⟨[], false, false, [name]⟩ := by
  have hcall : Reading.start.run "String(".toList = Reading.start := by decide
  have hword : Reading.start.run name.toList = { Reading.start with word := name.toList } :=
    Reading.run_word h rfl
  have hend : ({ Reading.start with word := name.toList } : Reading).run ")".toList =
      ⟨[], false, false, [name]⟩ := by
    have hends : endsWord ')' = true := by decide
    have hsome : name.toList.isEmpty = false := by
      rw [List.isEmpty_eq_false_iff]
      exact fun hnil => hne (String.toList_eq_nil_iff.mp hnil)
    have hclose : ({ Reading.start with word := name.toList } : Reading).close ')' = [name] := by
      simp [Reading.close, Reading.start, hsome]
    have hmark : ")".toList = [')'] := rfl
    rw [hmark, Reading.run, List.foldl_cons, List.foldl_nil, Reading.step, hends, hclose]
    rfl
  rw [String.toList_append, String.toList_append, Reading.run_append, Reading.run_append, hcall,
    hword, hend]

/-- An expression whose variables are among some names, and that leaves no
text open. -/
structure Scoped (names : List String) (text : String) : Prop where
  closed : (Reading.start.run text.toList).isQuoted = false
  bound : ∀ v ∈ variablesOf text, v ∈ names

namespace Scoped

variable {names : List String} {name text first other : String}

/-- **Expressions beside each other mention what either of them does.** -/
theorem append (h : Scoped names first) (h' : Scoped names other) :
    Scoped names (first ++ ", " ++ other) where
  closed := by
    rw [run_separated h.closed]
    exact h'.closed
  bound := by
    intro v hv
    rw [variablesOf, run_separated h.closed, Reading.step_behind] at hv
    exact (List.mem_append.mp hv).elim (h.bound v) (h'.bound v)

/-- A closed expression without a variable. -/
theorem of_none (hclosed : (Reading.start.run text.toList).isQuoted = false)
    (h : variablesOf text = []) : Scoped names text where
  closed := hclosed
  bound := by
    rw [h]
    exact fun v hv => absurd hv List.not_mem_nil

/-- One whose only variable is one of the names. -/
theorem of_one (hclosed : (Reading.start.run text.toList).isQuoted = false)
    (h : variablesOf text = [name]) (hname : name ∈ names) : Scoped names text where
  closed := hclosed
  bound := by
    intro v hv
    rw [h, List.mem_singleton] at hv
    rwa [hv]

/-- A call with one of the names. -/
theorem call (hname : name ∈ names) (hne : name ≠ "")
    (hword : ∀ c ∈ name.toList, endsWord c = false) : Scoped names ("String(" ++ name ++ ")") := by
  have hrun := run_call hne hword
  have hvariables : variablesOf ("String(" ++ name ++ ")") = [name] := by
    rw [variablesOf, hrun]
    rfl
  exact .of_one (by rw [hrun]) hvariables hname

end Scoped

end TypeScript

end ApiMock
