import ApiMock.Proofs.Json.Spelling
import ApiMock.Schema.Basic
import ApiMock.TypeScript.TypeExpr
/-!
# TypeScript — the grammar of types

How a module reads a type: the text is cut into tokens, and the tokens are
put together by a grammar. Brackets behind a type bind tighter than bars
between types, and parentheses group. A text has at most one reading
(`ReadsAs.unique`), since what follows a part of a type never goes on with
it.
-/

namespace ApiMock

namespace TypeScript

open Naming (isIdentifierStart isIdentifierPart)

/-! ## Tokens -/

/-- The tokens of a type. -/
inductive Token where
  | word (w : String)
  /-- A text between single quotes. -/
  | text (s : String)
  /-- A text between double quotes. -/
  | key (s : String)
  | number (n : Int)
  | mark (c : Char)
  deriving DecidableEq, Repr

/-- The characters that are tokens on their own. -/
def marks : List Char := ['(', ')', '[', ']', '\x7b', '\x7d', ':', ';', '|', '?']

/-- The token that JSON reads as this value. -/
def ofJson? : Json → Option Token
  | .str s => some (.key s)
  | .int n => some (.number n)
  | _ => none

/-- Reads a text up to the single quote that closes it. A backslash quotes the character
behind it. -/
def readQuoted : List Char → Option (List Char × List Char)
  | [] => none
  | '\'' :: rest => some ([], rest)
  | '\\' :: c :: rest => (readQuoted rest).map fun r => (c :: r.1, r.2)
  | c :: rest => if c = '\\' then none else (readQuoted rest).map fun r => (c :: r.1, r.2)

/-- Reads the token that a text starts with; a blank starts none. A word goes on as far as it
can. Texts between double quotes and numbers are those of JSON. -/
def nextToken? : List Char → Option (Token × List Char)
  | [] => none
  | c :: rest =>
    if c = ' ' then none
    else if isIdentifierStart c then
      some (.word (String.ofList (c :: rest.takeWhile isIdentifierPart)),
        rest.dropWhile isIdentifierPart)
    else if c = '\'' then (readQuoted rest).map fun r => (.text (String.ofList r.1), r.2)
    else if c ∈ marks then some (.mark c, rest)
    else (Json.forget (Json.readValue (c :: rest))).bind fun r => (ofJson? r.1).map (·, r.2)

/-- The text is cut into the tokens, blanks aside. -/
inductive Lexes : List Char → List Token → Prop where
  | nil : Lexes [] []
  | blank {cs : List Char} {ts : List Token} (h : Lexes cs ts) : Lexes (' ' :: cs) ts
  | token {cs rest : List Char} {t : Token} {ts : List Token} (ht : nextToken? cs = some (t, rest))
      (h : Lexes rest ts) : Lexes cs (t :: ts)

/-! ## Trees -/

/-- The tree of a type. -/
inductive TypeTree where
  | any
  | keyword (k : Keyword)
  | named (name : String)
  /-- The type of one value. -/
  | literal (value : Scalar)
  | array (element : TypeTree)
  | union (choices : List TypeTree)
  | object (members : List (PropertyKey × TypeTree))

/-- What a word stands for; one that is not predefined is the name of a type. -/
def ofWord : String → TypeTree
  | "any" => .any
  | "string" => .keyword .string
  | "number" => .keyword .number
  | "boolean" => .keyword .boolean
  | "null" => .literal .null
  | "true" => .literal (.bool true)
  | "false" => .literal (.bool false)
  | w => .named w

/-- An array of arrays and so on, as deep as there are pairs of brackets. -/
def arrays : Nat → TypeTree → TypeTree
  | 0, t => t
  | n + 1, t => arrays n (.array t)

/-- So many pairs of brackets. -/
def brackets : Nat → List Token
  | 0 => []
  | n + 1 => .mark '[' :: .mark ']' :: brackets n

/-- The last pair of brackets makes the outermost array. -/
theorem arrays_succ (n : Nat) (t : TypeTree) : arrays (n + 1) t = .array (arrays n t) := by
  induction n generalizing t with
  | zero => rfl
  | succ n ih => rw [arrays, ih, ← arrays]

theorem brackets_succ (n : Nat) : brackets (n + 1) = brackets n ++ [.mark '[', .mark ']'] := by
  induction n with
  | zero => rfl
  | succ n ih =>
    calc brackets (n + 2) = .mark '[' :: .mark ']' :: brackets (n + 1) := rfl
      _ = .mark '[' :: .mark ']' :: (brackets n ++ [.mark '[', .mark ']']) := by rw [ih]
      _ = brackets (n + 1) ++ [.mark '[', .mark ']'] := rfl

/-- The type of some choices; one on its own is itself. -/
def ofChoices : List TypeTree → TypeTree
  | [t] => t
  | ts => .union ts

/-! ## The grammar -/

/-- The parts of a type that the grammar has a rule for, each with what it is read as. -/
inductive Phrase where
  /-- What brackets can stand behind. -/
  | operand (t : TypeTree)
  | element (t : TypeTree)
  | choices (ts : List TypeTree)
  | type (t : TypeTree)
  | member (m : PropertyKey × TypeTree)
  | members (ms : List (PropertyKey × TypeTree))

/-- The key of a member, with the mark if the member may be missing. -/
inductive DerivesKey : PropertyKey → List Token → Prop where
  | word (w : String) : DerivesKey ⟨w, true⟩ [.word w]
  | text (s : String) : DerivesKey ⟨s, true⟩ [.key s]
  | optional {name : String} {ts : List Token} (h : DerivesKey ⟨name, true⟩ ts) :
    DerivesKey ⟨name, false⟩ (ts ++ [.mark '?'])

/-- **The grammar of types.** -/
inductive Derives : Phrase → List Token → Prop where
  | word (w : String) : Derives (.operand (ofWord w)) [.word w]
  | text (s : String) : Derives (.operand (.literal (.str s))) [.text s]
  | number (n : Int) : Derives (.operand (.literal (.int n))) [.number n]
  | group {t : TypeTree} {ts : List Token} (h : Derives (.type t) ts) :
    Derives (.operand t) (.mark '(' :: (ts ++ [.mark ')']))
  | empty : Derives (.operand (.object [])) [.mark '\x7b', .mark '\x7d']
  | object {ms : List (PropertyKey × TypeTree)} {ts : List Token} (h : Derives (.members ms) ts) :
    Derives (.operand (.object ms)) (.mark '\x7b' :: (ts ++ [.mark '\x7d']))
  | element {t : TypeTree} {ts : List Token} (n : Nat) (h : Derives (.operand t) ts) :
    Derives (.element (arrays n t)) (ts ++ brackets n)
  | last {t : TypeTree} {ts : List Token} (h : Derives (.element t) ts) : Derives (.choices [t]) ts
  | more {t : TypeTree} {others : List TypeTree} {ts us : List Token} (h : Derives (.element t) ts)
      (hmore : Derives (.choices others) us) :
    Derives (.choices (t :: others)) (ts ++ .mark '|' :: us)
  | type {choices : List TypeTree} {ts : List Token} (h : Derives (.choices choices) ts) :
    Derives (.type (ofChoices choices)) ts
  | member {k : PropertyKey} {t : TypeTree} {ks ts : List Token} (hk : DerivesKey k ks)
      (h : Derives (.type t) ts) : Derives (.member (k, t)) (ks ++ .mark ':' :: ts)
  | lastMember {m : PropertyKey × TypeTree} {ts : List Token} (h : Derives (.member m) ts) :
    Derives (.members [m]) ts
  | moreMembers {m : PropertyKey × TypeTree} {ms : List (PropertyKey × TypeTree)}
      {ts us : List Token} (h : Derives (.member m) ts) (hmore : Derives (.members ms) us) :
    Derives (.members (m :: ms)) (ts ++ .mark ';' :: us)

/-! ## Unique reading -/

/-- The kinds of phrases. -/
inductive Phrase.Kind where
  | operand
  | element
  | choices
  | type
  | member
  | members

/-- The kind of a phrase. -/
def Phrase.kind : Phrase → Kind
  | operand _ => .operand
  | element _ => .element
  | choices _ => .choices
  | type _ => .type
  | member _ => .member
  | members _ => .members

/-- The marks that go on with a phrase of the kind. -/
def Phrase.Kind.more : Kind → List Char
  | .operand => []
  | .element => ['[']
  | .choices | .type | .member => ['[', '|']
  | .members => ['[', '|', ';']

/-- Tokens that do not go on with a phrase of the kind. -/
def Ends (k : Phrase.Kind) (rest : List Token) : Prop :=
  ∀ c ∈ k.more, rest.head? ≠ some (.mark c)

section

variable {rest rest' : List Token}

theorem ends_mark {k : Phrase.Kind} {c : Char} (hc : c ∉ k.more) : Ends k (.mark c :: rest) := by
  intro d hd heq
  cases heq
  exact hc hd

theorem Ends.mono {k l : Phrase.Kind} (h : Ends k rest) (hmore : ∀ c ∈ l.more, c ∈ k.more) :
    Ends l rest :=
  fun c hc => h c (hmore c hc)

theorem ends_parenthesis : Ends .type (.mark ')' :: rest) := ends_mark (by decide)

theorem ends_brace : Ends .members (.mark '\x7d' :: rest) := ends_mark (by decide)

theorem ends_bar : Ends .element (.mark '|' :: rest) := ends_mark (by decide)

theorem ends_semicolon : Ends .member (.mark ';' :: rest) := ends_mark (by decide)

theorem Ends.element (h : Ends .choices rest) : Ends .element rest := h.mono (by decide)

theorem Ends.member (h : Ends .members rest) : Ends .member rest := h.mono (by decide)

theorem not_ends_bracket : ¬ Ends .element (.mark '[' :: rest) :=
  fun h => h '[' (by decide) rfl

theorem not_ends_bar : ¬ Ends .choices (.mark '|' :: rest) :=
  fun h => h '|' (by decide) rfl

theorem not_ends_semicolon : ¬ Ends .members (.mark ';' :: rest) :=
  fun h => h ';' (by decide) rfl

theorem brackets_unique {n m : Nat} (h : brackets n ++ rest = brackets m ++ rest')
    (hr : Ends .element rest) (hr' : Ends .element rest') : n = m ∧ rest = rest' := by
  induction n generalizing m with
  | zero =>
    cases m with
    | zero => exact ⟨rfl, h⟩
    | succ m =>
      rw [brackets, List.nil_append] at h
      rw [h] at hr
      exact absurd hr not_ends_bracket
  | succ n ih =>
    cases m with
    | zero =>
      rw [brackets, brackets, List.nil_append] at h
      rw [← h] at hr'
      exact absurd hr' not_ends_bracket
    | succ m =>
      obtain ⟨rfl, hrest⟩ := ih (List.cons.inj (List.cons.inj h).2).2
      exact ⟨rfl, hrest⟩

/-- A key starts with no mark. -/
theorem DerivesKey.head {k : PropertyKey} {ks : List Token} (h : DerivesKey k ks) :
    ∃ t more, ks = t :: more ∧ ∀ c, t ≠ .mark c := by
  induction h with
  | word w => exact ⟨_, _, rfl, nofun⟩
  | text s => exact ⟨_, _, rfl, nofun⟩
  | optional h ih =>
    obtain ⟨t, more, rfl, ht⟩ := ih
    exact ⟨t, _, rfl, ht⟩

/-- So do members. -/
theorem Derives.head_members {ms : List (PropertyKey × TypeTree)} {ts : List Token}
    (h : Derives (.members ms) ts) : ∃ t more, ts = t :: more ∧ ∀ c, t ≠ .mark c := by
  have hmember : ∀ {m ts}, Derives (.member m) ts →
      ∃ t more, ts = t :: more ∧ ∀ c, t ≠ .mark c := by
    intro m ts h
    cases h with
    | member hk h =>
      obtain ⟨t, more, rfl, ht⟩ := hk.head
      exact ⟨t, _, rfl, ht⟩
  cases h with
  | lastMember h => exact hmember h
  | moreMembers h hmore =>
    obtain ⟨t, more, rfl, ht⟩ := hmember h
    exact ⟨t, _, rfl, ht⟩

/-- A key is read in one way up to the colon. -/
theorem DerivesKey.unique {k k' : PropertyKey} {ks ks' : List Token} (h : DerivesKey k ks)
    (h' : DerivesKey k' ks') (heq : ks ++ .mark ':' :: rest = ks' ++ .mark ':' :: rest') :
    k = k' ∧ rest = rest' := by
  have hplain : ∀ {name : String} {ks : List Token}, DerivesKey ⟨name, true⟩ ks →
      ks = [.word name] ∨ ks = [.key name] := by
    intro name ks h
    cases h with
    | word w => exact .inl rfl
    | text s => exact .inr rfl
  cases h with
  | word w =>
    cases h' with
    | word v =>
      cases heq
      exact ⟨rfl, rfl⟩
    | text s => cases heq
    | optional h' => rcases hplain h' with rfl | rfl <;> cases heq
  | text s =>
    cases h' with
    | word v => cases heq
    | text s =>
      cases heq
      exact ⟨rfl, rfl⟩
    | optional h' => rcases hplain h' with rfl | rfl <;> cases heq
  | optional h =>
    cases h' with
    | optional h' =>
      rcases hplain h with rfl | rfl <;> rcases hplain h' with rfl | rfl <;> cases heq <;>
        exact ⟨rfl, rfl⟩
    | _ => rcases hplain h with rfl | rfl <;> cases heq

/-- **What is read is read in one way**, if what follows does not go on with it. -/
theorem Derives.unique {p q : Phrase} {ts us : List Token} (h : Derives p ts)
    (h' : Derives q us) (hkind : q.kind = p.kind) (heq : ts ++ rest = us ++ rest')
    (hr : Ends p.kind rest) (hr' : Ends p.kind rest') : p = q ∧ rest = rest' := by
  induction h generalizing q us rest rest' with
  | word w =>
    cases h' <;> cases hkind <;> cases heq
    exact ⟨rfl, rfl⟩
  | text s =>
    cases h' <;> cases hkind <;> cases heq
    exact ⟨rfl, rfl⟩
  | number n =>
    cases h' <;> cases hkind <;> cases heq
    exact ⟨rfl, rfl⟩
  | @group t ts h ih =>
    cases h' with
    | @group u us h' =>
      simp only [List.cons_append, List.append_assoc, List.nil_append, List.cons.injEq,
        true_and] at heq
      obtain ⟨htree, hrest⟩ := ih h' rfl heq ends_parenthesis ends_parenthesis
      cases htree
      exact ⟨rfl, (List.cons.inj hrest).2⟩
    | _ => cases hkind <;> cases heq
  | empty =>
    cases h' with
    | empty =>
      cases heq
      exact ⟨rfl, rfl⟩
    | object h' =>
      obtain ⟨t, more, rfl, ht⟩ := h'.head_members
      cases heq
      exact absurd rfl (ht _)
    | _ => cases hkind <;> cases heq
  | object h ih =>
    cases h' with
    | empty =>
      obtain ⟨t, more, rfl, ht⟩ := h.head_members
      cases heq
      exact absurd rfl (ht _)
    | object h' =>
      simp only [List.cons_append, List.append_assoc, List.nil_append, List.cons.injEq,
        true_and] at heq
      obtain ⟨htree, hrest⟩ := ih h' rfl heq ends_brace ends_brace
      cases htree
      exact ⟨rfl, (List.cons.inj hrest).2⟩
    | _ => cases hkind <;> cases heq
  | element n h ih =>
    cases h' with
    | element m h' =>
      simp only [List.append_assoc] at heq
      obtain ⟨htree, heq⟩ := ih h' rfl heq nofun nofun
      obtain ⟨hn, hrest⟩ := brackets_unique heq hr hr'
      cases htree
      cases hn
      exact ⟨rfl, hrest⟩
    | _ => cases hkind
  | last h ih =>
    cases h' with
    | last h' =>
      obtain ⟨htree, hrest⟩ := ih h' rfl heq hr.element hr'.element
      cases htree
      exact ⟨rfl, hrest⟩
    | more h' hmore' =>
      simp only [List.append_assoc, List.cons_append] at heq
      obtain ⟨-, hrest⟩ := ih h' rfl heq hr.element ends_bar
      rw [hrest] at hr
      exact absurd hr not_ends_bar
    | _ => cases hkind
  | more h hmore ih ihmore =>
    cases h' with
    | last h' =>
      simp only [List.append_assoc, List.cons_append] at heq
      obtain ⟨-, hrest⟩ := ih h' rfl heq ends_bar hr'.element
      rw [← hrest] at hr'
      exact absurd hr' not_ends_bar
    | more h' hmore' =>
      simp only [List.append_assoc, List.cons_append] at heq
      obtain ⟨htree, hrest⟩ := ih h' rfl heq ends_bar ends_bar
      obtain ⟨htrees, hrest⟩ := ihmore hmore' rfl (List.cons.inj hrest).2 hr hr'
      cases htree
      cases htrees
      exact ⟨rfl, hrest⟩
    | _ => cases hkind
  | type h ih =>
    cases h' with
    | type h' =>
      obtain ⟨htrees, hrest⟩ := ih h' rfl heq hr hr'
      cases htrees
      exact ⟨rfl, hrest⟩
    | _ => cases hkind
  | member hk h ih =>
    cases h' with
    | member hk' h' =>
      simp only [List.append_assoc, List.cons_append] at heq
      obtain ⟨rfl, heq⟩ := hk.unique hk' heq
      obtain ⟨htree, hrest⟩ := ih h' rfl heq hr hr'
      cases htree
      exact ⟨rfl, hrest⟩
    | _ => cases hkind
  | lastMember h ih =>
    cases h' with
    | lastMember h' =>
      obtain ⟨hmember, hrest⟩ := ih h' rfl heq hr.member hr'.member
      cases hmember
      exact ⟨rfl, hrest⟩
    | moreMembers h' hmore' =>
      simp only [List.append_assoc, List.cons_append] at heq
      obtain ⟨-, hrest⟩ := ih h' rfl heq hr.member ends_semicolon
      rw [hrest] at hr
      exact absurd hr not_ends_semicolon
    | _ => cases hkind
  | moreMembers h hmore ih ihmore =>
    cases h' with
    | lastMember h' =>
      simp only [List.append_assoc, List.cons_append] at heq
      obtain ⟨-, hrest⟩ := ih h' rfl heq ends_semicolon hr'.member
      rw [← hrest] at hr'
      exact absurd hr' not_ends_semicolon
    | moreMembers h' hmore' =>
      simp only [List.append_assoc, List.cons_append] at heq
      obtain ⟨hmember, hrest⟩ := ih h' rfl heq ends_semicolon ends_semicolon
      obtain ⟨hmembers, hrest⟩ := ihmore hmore' rfl (List.cons.inj hrest).2 hr hr'
      cases hmember
      cases hmembers
      exact ⟨rfl, hrest⟩
    | _ => cases hkind

end

/-- The text is read as the type. -/
def ReadsAs (text : String) (t : TypeTree) : Prop :=
  ∃ ts, Lexes text.toList ts ∧ Derives (.type t) ts

/-- A text is cut in one way. -/
theorem Lexes.unique {cs : List Char} {ts us : List Token} (h : Lexes cs ts) (h' : Lexes cs us) :
    ts = us := by
  have hblank : ∀ rest, nextToken? (' ' :: rest) = none := fun _ => rfl
  induction h generalizing us with
  | nil =>
    cases h' with
    | nil => rfl
    | token ht _ => cases ht
  | blank h ih =>
    cases h' with
    | blank h' => exact ih h'
    | token ht _ =>
      rw [hblank] at ht
      cases ht
  | token ht h ih =>
    cases h' with
    | nil => cases ht
    | blank _ =>
      rw [hblank] at ht
      cases ht
    | token ht' h' =>
      cases ht.symm.trans ht'
      rw [ih h']

/-- **A text is read as one type at most.** -/
theorem ReadsAs.unique {text : String} {t u : TypeTree} (h : ReadsAs text t)
    (h' : ReadsAs text u) : t = u := by
  obtain ⟨ts, hlexes, hreads⟩ := h
  obtain ⟨us, hlexes', hreads'⟩ := h'
  obtain rfl := hlexes.unique hlexes'
  have hends : Ends .type [] := nofun
  obtain ⟨htree, -⟩ := hreads.unique hreads' rfl rfl hends hends
  cases htree
  rfl

end TypeScript

end ApiMock
