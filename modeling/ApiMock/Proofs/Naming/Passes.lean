import ApiMock.Proofs.Naming.Canonical
/-!
# Naming — hyphens in two passes

Where hyphens go can be said by two substitutions, `([A-Z]+)([A-Z][a-z])`
and then `([a-z\d])([A-Z])`, each by its two groups with a hyphen between
them. A substitution takes the leftmost match, and the next one behind it;
of the capitals as many are taken as leave a match. One look at each pair
of neighbours gives the same hyphens (`exists_passes`).
-/

namespace ApiMock

namespace Naming

open Text

variable {cs out : List Char} {a b : Char}

/-! ## Substitutions -/

/-- The two groups of a match at the front of a text, and what is behind it. -/
structure Match where
  first : List Char
  second : List Char
  rest : List Char

/-- The ways to take one or more capitals from the front, the most first. -/
def capitals : List Char → List (List Char × List Char)
  | [] => []
  | c :: rest =>
    if c.isUpper then (capitals rest).map (fun e => (c :: e.1, e.2)) ++ [([c], rest)] else []

/-- The match of `([A-Z]+)([A-Z][a-z])` at the front of a text. -/
def acronymMatch (cs : List Char) : Option Match :=
  (capitals cs).findSome? fun e =>
    match e.2 with
    | a :: b :: rest => if a.isUpper && b.isLower then some ⟨e.1, [a, b], rest⟩ else none
    | _ => none

/-- The match of `([a-z\d])([A-Z])` at the front of a text. -/
def boundaryMatch : List Char → Option Match
  | a :: b :: rest =>
    if (a.isLower || a.isDigit) && b.isUpper then some ⟨[a], [b], rest⟩ else none
  | _ => none

/-- `Substituted find cs out` says that `out` is `cs` with a hyphen between
the groups of every match, from left to right. -/
inductive Substituted (find : List Char → Option Match) : List Char → List Char → Prop where
  | nil : Substituted find [] []
  | skip {c : Char} {rest out : List Char} (h : find (c :: rest) = none)
    (onward : Substituted find rest out) : Substituted find (c :: rest) (c :: out)
  | put {c : Char} {rest out : List Char} {m : Match} (h : find (c :: rest) = some m)
    (onward : Substituted find m.rest out) :
    Substituted find (c :: rest) (m.first ++ '-' :: m.second ++ out)

/-- A substitution has one outcome. -/
theorem Substituted.unique {find : List Char → Option Match} {out' : List Char}
    (h : Substituted find cs out) (h' : Substituted find cs out') : out = out' := by
  induction h generalizing out' with
  | nil =>
    cases h'
    rfl
  | skip hfind _ ih =>
    cases h' with
    | skip _ onward => rw [ih onward]
    | put hfind' _ => rw [hfind] at hfind'; cases hfind'
  | put hfind _ ih =>
    cases h' with
    | skip hfind' _ => rw [hfind] at hfind'; cases hfind'
    | put hfind' onward =>
      rw [hfind] at hfind'
      cases hfind'
      rw [ih onward]

/-! ## Hyphens between neighbours -/

/-- A hyphen between any two neighbours that `p` picks; it is also told what
comes behind them. -/
def insertWhere (p : Char → Char → Option Char → Bool) : List Char → List Char
  | a :: b :: rest =>
    if p a b rest.head? then a :: '-' :: insertWhere p (b :: rest)
    else a :: insertWhere p (b :: rest)
  | cs => cs

/-- Between the last two of several capitals in front of a small letter. -/
def endsAcronym (a b : Char) (next : Option Char) : Bool :=
  a.isUpper && b.isUpper && next.any Char.isLower

/-- Between a small letter or digit and a capital. -/
def atBoundary (a b : Char) (_ : Option Char) : Bool :=
  (a.isLower || a.isDigit) && b.isUpper

theorem hyphenate_eq_insertWhere (cs : List Char) : hyphenate cs = insertWhere startsWord cs := by
  induction cs with
  | nil => rfl
  | cons a cs ih =>
    cases cs with
    | nil => rfl
    | cons b rest => rw [hyphenate, insertWhere, ih]

variable {p : Char → Char → Option Char → Bool}

/-- The first character stays in front. -/
theorem insertWhere_cons (a : Char) (rest : List Char) : ∃ t, insertWhere p (a :: rest) = a :: t := by
  cases rest with
  | nil => exact ⟨[], rfl⟩
  | cons b rest =>
    rw [insertWhere]
    split
    · exact ⟨_, rfl⟩
    · exact ⟨_, rfl⟩

/-- Behind a character that is never picked there is no hyphen. -/
theorem insertWhere_of_not (h : ∀ b next, p a b next = false) (rest : List Char) :
    insertWhere p (a :: rest) = a :: insertWhere p rest := by
  cases rest with
  | nil => rfl
  | cons b rest => rw [insertWhere, if_neg (by simp [h])]

/-- The two kinds of places are taken one after the other. -/
theorem insertWhere_atBoundary_endsAcronym (cs : List Char) :
    insertWhere atBoundary (insertWhere endsAcronym cs) = insertWhere startsWord cs := by
  have hhyphen : ∀ b next, atBoundary '-' b next = false := fun _ _ => rfl
  induction cs with
  | nil => rfl
  | cons a cs ih =>
    cases cs with
    | nil => rfl
    | cons b rest =>
      obtain ⟨t, ht⟩ := insertWhere_cons (p := endsAcronym) b rest
      rw [ht] at ih
      rw [insertWhere, ht]
      by_cases hacronym : endsAcronym a b rest.head? = true
      -- behind the capital now stands the hyphen of the first pass, which is no boundary
      · have hstart : startsWord a b rest.head? = true := by
          simp only [endsAcronym, Bool.and_eq_true] at hacronym
          simp [startsWord, hacronym]
        have hstop : ¬ atBoundary a '-' (b :: t).head? = true := by
          simp [atBoundary, show '-'.isUpper = false from rfl]
        rw [if_pos hacronym, insertWhere, if_neg hstop, insertWhere_of_not hhyphen, ih,
          insertWhere, if_pos hstart]
      -- the first pass left the two as they were
      · have hstart : startsWord a b rest.head? = atBoundary a b t.head? := by
          rw [endsAcronym, Bool.not_eq_true] at hacronym
          rw [startsWord, atBoundary]
          cases hupper : b.isUpper with
          | false => simp
          | true =>
            rw [hupper, Bool.and_true] at hacronym
            rw [hacronym, Bool.or_false, Bool.true_and, Bool.and_true]
        rw [if_neg hacronym, insertWhere, ih, insertWhere, hstart]

/-! ## The passes are these insertions -/

/-- What is taken from the front are capitals. -/
theorem mem_capitals {e : List Char × List Char} (h : e ∈ capitals cs) :
    cs = e.1 ++ e.2 ∧ e.1 ≠ [] ∧ ∀ c ∈ e.1, c.isUpper = true := by
  induction cs generalizing e with
  | nil => cases h
  | cons c rest ih =>
    rw [capitals] at h
    split at h
    · rename_i hc
      rcases List.mem_append.mp h with h | h
      · obtain ⟨f, hf, rfl⟩ := List.mem_map.mp h
        obtain ⟨hrest, -, hall⟩ := ih hf
        refine ⟨by rw [hrest]; rfl, List.cons_ne_nil _ _, ?_⟩
        rintro d (_ | ⟨_, hd⟩)
        · exact hc
        · exact hall d hd
      · obtain rfl := List.mem_singleton.mp h
        exact ⟨rfl, List.cons_ne_nil _ _, by simpa using hc⟩
    · cases h

/-- A match of the first pass ends at the last capital before a small
letter. -/
theorem of_acronymMatch {m : Match} (h : acronymMatch cs = some m) :
    ∃ a b, cs = m.first ++ a :: b :: m.rest ∧ m.second = [a, b] ∧ m.first ≠ [] ∧
      (∀ c ∈ m.first, c.isUpper = true) ∧ a.isUpper = true ∧ b.isLower = true := by
  obtain ⟨⟨first, behind⟩, he, hm⟩ := List.exists_of_findSome?_eq_some h
  obtain ⟨hcs, hne, hall⟩ := mem_capitals he
  match behind with
  | [] => cases hm
  | [_] => cases hm
  | a :: b :: rest =>
    simp only [Option.ite_none_right_eq_some, Bool.and_eq_true, Option.some.injEq] at hm
    obtain ⟨⟨ha, hb⟩, rfl⟩ := hm
    exact ⟨a, b, hcs, rfl, hne, hall, ha, hb⟩

/-- Where the first pass finds nothing there is no end of an acronym. -/
theorem not_endsAcronym_of_acronymMatch {rest : List Char}
    (h : acronymMatch (a :: b :: rest) = none) : ¬ endsAcronym a b rest.head? = true := by
  intro hends
  simp only [endsAcronym, Bool.and_eq_true] at hends
  obtain ⟨⟨ha, hb⟩, hnext⟩ := hends
  have hin : ([a], b :: rest) ∈ capitals (a :: b :: rest) := by
    rw [capitals, if_pos ha]
    exact List.mem_append_right _ List.mem_cons_self
  have hnone := List.findSome?_eq_none_iff.mp h _ hin
  cases rest with
  | nil => simp at hnext
  | cons c rest =>
    have hc : c.isLower = true := by simpa using hnext
    simp [hb, hc] at hnone

/-- Inside of an acronym there is one hyphen, before its last capital. -/
theorem insertWhere_acronym {first rest : List Char} (hne : first ≠ [])
    (hall : ∀ c ∈ first, c.isUpper = true) (ha : a.isUpper = true) (hb : b.isLower = true) :
    insertWhere endsAcronym (first ++ a :: b :: rest) =
      first ++ '-' :: [a, b] ++ insertWhere endsAcronym rest := by
  have hbehind : insertWhere endsAcronym (b :: rest) = b :: insertWhere endsAcronym rest :=
    insertWhere_of_not (fun _ _ => by simp [endsAcronym, not_isUpper_of_isLower hb]) rest
  induction first with
  | nil => exact absurd rfl hne
  | cons c more ih =>
    have hc : c.isUpper = true := hall c List.mem_cons_self
    cases more with
    | nil =>
      have hends : endsAcronym c a (b :: rest).head? = true := by simp [endsAcronym, hc, ha, hb]
      have hstop : ¬ endsAcronym a b rest.head? = true := by
        simp [endsAcronym, not_isUpper_of_isLower hb]
      rw [List.singleton_append, insertWhere, if_pos hends, insertWhere, if_neg hstop, hbehind]
      rfl
    | cons d more =>
      -- the next two are capitals, so there is no small letter behind
      have hnext : ∃ e behind, more ++ a :: b :: rest = e :: behind ∧ e.isUpper = true := by
        cases more with
        | nil => exact ⟨a, b :: rest, rfl, ha⟩
        | cons e more => exact ⟨e, more ++ a :: b :: rest, rfl, hall e (by simp)⟩
      obtain ⟨e, behind, hbehind', he⟩ := hnext
      have hstop : ¬ endsAcronym c d (more ++ a :: b :: rest).head? = true := by
        rw [hbehind']
        simp [endsAcronym, not_isLower_of_isUpper he]
      have hmore := ih (List.cons_ne_nil d more) fun x hx => hall x (List.mem_cons_of_mem c hx)
      rw [List.cons_append, List.cons_append, insertWhere, if_neg hstop, ← List.cons_append, hmore]
      rfl

/-- **The first pass puts a hyphen at the end of every acronym.** -/
theorem substituted_acronyms (cs : List Char) :
    Substituted acronymMatch cs (insertWhere endsAcronym cs) := by
  -- by length, since a match takes several characters at once
  induction h : cs.length using Nat.strongRecOn generalizing cs with
  | _ n ih =>
    cases cs with
    | nil => exact .nil
    | cons c rest =>
      cases hfind : acronymMatch (c :: rest) with
      | none =>
        have hskip : insertWhere endsAcronym (c :: rest) = c :: insertWhere endsAcronym rest := by
          cases rest with
          | nil => rfl
          | cons b rest => rw [insertWhere, if_neg (not_endsAcronym_of_acronymMatch hfind)]
        rw [hskip]
        exact .skip hfind (ih _ (by simp [← h]) rest rfl)
      | some m =>
        obtain ⟨a, b, hcs, hsecond, hne, hall, ha, hb⟩ := of_acronymMatch hfind
        have hput : insertWhere endsAcronym (c :: rest) =
            m.first ++ '-' :: m.second ++ insertWhere endsAcronym m.rest := by
          rw [hcs, hsecond, insertWhere_acronym hne hall ha hb]
        have hshorter : m.rest.length < n := by
          rw [← h, hcs, List.length_append, List.length_cons, List.length_cons]
          omega
        rw [hput]
        exact .put hfind (ih _ hshorter m.rest rfl)

/-- **The second pass puts a hyphen at every boundary.** -/
theorem substituted_boundaries (cs : List Char) :
    Substituted boundaryMatch cs (insertWhere atBoundary cs) := by
  induction h : cs.length using Nat.strongRecOn generalizing cs with
  | _ n ih =>
    match cs with
    | [] => exact .nil
    | [c] => exact .skip rfl .nil
    | a :: b :: rest =>
      by_cases hboundary : ((a.isLower || a.isDigit) && b.isUpper) = true
      · have hupper : b.isUpper = true := (Bool.and_eq_true_iff.mp hboundary).2
        have hbehind : insertWhere atBoundary (b :: rest) = b :: insertWhere atBoundary rest :=
          insertWhere_of_not (fun _ _ => by
            simp [atBoundary, not_isLower_of_isUpper hupper, not_isDigit_of_isUpper hupper]) rest
        have hfind : boundaryMatch (a :: b :: rest) = some ⟨[a], [b], rest⟩ := by
          rw [boundaryMatch, if_pos hboundary]
        have hput : insertWhere atBoundary (a :: b :: rest) =
            [a] ++ '-' :: [b] ++ insertWhere atBoundary rest := by
          rw [insertWhere, atBoundary, if_pos hboundary, hbehind]
          rfl
        have hshorter : rest.length < n := by
          rw [← h, List.length_cons, List.length_cons]
          omega
        rw [hput]
        exact .put hfind (ih _ hshorter rest rfl)
      · have hfind : boundaryMatch (a :: b :: rest) = none := by
          rw [boundaryMatch, if_neg hboundary]
        rw [insertWhere, atBoundary, if_neg hboundary]
        exact .skip hfind (ih _ (by simp [← h]) (b :: rest) rfl)

/-- **The two passes put the hyphens.** -/
theorem exists_passes (cs : List Char) : ∃ inner,
    Substituted acronymMatch cs inner ∧ Substituted boundaryMatch inner (hyphenate cs) := by
  refine ⟨_, substituted_acronyms cs, ?_⟩
  rw [hyphenate_eq_insertWhere, ← insertWhere_atBoundary_endsAcronym]
  exact substituted_boundaries _

/-- And they put them in no other way. -/
theorem eq_hyphenate_of_passes {inner : List Char} (hinner : Substituted acronymMatch cs inner)
    (hout : Substituted boundaryMatch inner out) : out = hyphenate cs := by
  obtain ⟨inner', hinner', hpasses⟩ := exists_passes cs
  rw [hinner.unique hinner'] at hout
  exact hout.unique hpasses

/-- The second pass alone would leave the acronym in one word. -/
example : hyphenate "HTTPServer2Go".toList = "HTTP-Server2-Go".toList := by decide

/-- A canonical name becomes a stem by the two passes and small letters. -/
theorem IsCanonical.kebab_passes {name : String} (h : IsCanonical name.toList) :
    ∃ inner out, Substituted acronymMatch name.toList inner ∧
      Substituted boundaryMatch inner out ∧ (kebab name).toList = out.map Char.toLower := by
  obtain ⟨inner, hinner, hout⟩ := exists_passes name.toList
  refine ⟨inner, _, hinner, hout, ?_⟩
  rw [kebab, String.toList_ofList, h.pascalChars_eq]

end Naming

end ApiMock
