import ApiMock.Proofs.Naming.Slug
/-!
# Naming — forms that are stable

A name has one canonical form, and the other forms are forms of that one.
A stem takes nothing from it but the case of its letters. It does not give
the case back, but what it gives back has its words where the name has
them (`startsWord_recased`), so the stem of a stem is the same stem
(`kebab_kebab`). A character that is no letter and no digit only parts the
words on its two sides.
-/

namespace ApiMock

namespace Naming

open Text

variable {cs : List Char} {name : String} {a b : Char}

/-! ## Words on two sides -/

/-- **The canonical form of two names with something else in between** is that of the one and that
of the other. -/
theorem pascal_append_append {c : Char} (hc : c.isAlphanum = false) (name other : String) :
    pascal (name ++ String.singleton c ++ other) = pascal name ++ pascal other := by
  have htext : (name ++ String.singleton c ++ other).toList = name.toList ++ c :: other.toList := by
    simp
  rw [pascal, htext, pascalChars, wordsOf, runs_append_cons hc, List.flatMap_append,
    String.ofList_append]
  rfl

/-! ## The forms of the canonical form -/

theorem pascalChars_pascal (name : String) :
    pascalChars (pascal name).toList = pascalChars name.toList := by
  rw [(isCanonical_pascal name).pascalChars_eq, pascal, String.toList_ofList]

/-- A name and its canonical form have one camel form. -/
theorem camel_pascal (name : String) : camel (pascal name) = camel name := by
  rw [camel, pascalChars_pascal, ← camel]

/-- And one stem. -/
theorem kebab_pascal (name : String) : kebab (pascal name) = kebab name := by
  rw [kebab, pascalChars_pascal, ← kebab]

/-! ## What a stem takes away -/

/-- The words of a stem are the canonical name in lower case. -/
theorem flatten_slugWords (name : String) :
    (slugWords name).flatten = (pascal name).toList.map Char.toLower := by
  rw [slugWords, ← List.map_flatten, flatten_humps, pascal, String.toList_ofList]

/-- **A stem without its hyphens is the canonical name in lower case.** -/
theorem filter_kebab (name : String) :
    (kebab name).toList.filter (· ≠ '-') = (pascal name).toList.map Char.toLower := by
  have hother : ∀ c ∈ (kebab name).toList, decide (c ≠ '-') = c.isAlphanum := by
    intro c hc
    rw [toList_kebab] at hc
    rcases mem_joinWith hc with hc | ⟨w, hw, hc⟩
    · rw [List.mem_singleton.mp hc]
      rfl
    · have hslug : isSlugChar c = true := (isRun_of_mem_slugWords w hw).2 c hc
      rw [decide_eq_true (ne_hyphen_of_isSlugChar hslug), eq_comm, isAlphanum_iff]
      rw [isSlugChar, Bool.or_eq_true] at hslug
      exact .inr hslug
  rw [List.filter_congr hother, ← flatten_runs, ← wordsOf, wordsOf_kebab, flatten_slugWords]

/-! ## The stem of a stem -/

/-- A character as it comes back from a stem: in upper case at the start of a word, else in lower
case. -/
def recased (starts : Bool) (c : Char) : Char :=
  if starts then c.toUpper else c.toLower

/-- A name as it comes back from its stem. `starts` says whether a word starts with it. -/
def recase : (starts : Bool) → List Char → List Char
  | starts, a :: b :: rest => recased starts a :: recase (startsWord a b rest.head?) (b :: rest)
  | starts, [a] => [recased starts a]
  | _, [] => []

/-- The first character comes back first. -/
theorem head?_recase (starts : Bool) (cs : List Char) :
    (recase starts cs).head? = cs.head?.map (recased starts) := by
  match cs with
  | [] => rfl
  | [_] => rfl
  | _ :: _ :: _ => rfl

/-- In lower case it is the character it was. -/
theorem toLower_recased {starts : Bool} {c : Char} : (recased starts c).toLower = c.toLower := by
  cases starts with
  | true =>
    rw [recased, if_pos rfl, ← Char.toNat_inj, toNat_toLower, toNat_toLower]
    simp only [isUpper_iff, toNat_toUpper, isLower_iff]
    grind
  | false =>
    rw [recased, if_neg Bool.false_ne_true, ← Char.toNat_inj, toNat_toLower, toNat_toLower]
    simp only [isUpper_iff, toNat_toLower]
    grind

/-- A word as it comes back from a stem. -/
def recasedWord (starts : Bool) (w : List Char) : List Char :=
  if starts then capitalize (w.map Char.toLower) else w.map Char.toLower

theorem recasedWord_cons (starts : Bool) (c : Char) (w : List Char) :
    recasedWord starts (c :: w) = recased starts c :: w.map Char.toLower := by
  cases starts with
  | true => exact congrArg (· :: w.map Char.toLower) (toUpper_toLower_eq c)
  | false => rfl

/-- A name comes back word by word: only the first may be one that goes on. -/
theorem recase_eq {starts : Bool} {w : List Char} {ws : List (List Char)} (h : humps cs = w :: ws) :
    recase starts cs = recasedWord starts w ++ ws.flatMap (recasedWord true) := by
  induction cs generalizing starts w ws with
  | nil => cases h
  | cons a cs ih =>
    cases cs with
    | nil =>
      cases h
      rw [recasedWord_cons]
      rfl
    | cons b rest =>
      obtain ⟨t, others, hrest, heq⟩ := humps_cons_cons a b rest
      rw [h] at heq
      rw [recase]
      by_cases hstart : startsWord a b rest.head? = true
      · rw [if_pos hstart] at heq
        cases heq
        rw [hstart, ih hrest, recasedWord_cons starts a, List.flatMap_cons]
        rfl
      · rw [if_neg hstart] at heq
        cases heq
        rw [Bool.not_eq_true] at hstart
        rw [hstart, ih hrest, recasedWord_cons, recasedWord_cons]
        rfl

/-- What a stem gives back. -/
theorem pascalChars_kebab (name : String) :
    pascalChars (kebab name).toList = recase true (pascalChars name.toList) := by
  rw [pascalChars, wordsOf_kebab, slugWords, List.flatMap_map]
  cases h : humps (pascalChars name.toList) with
  | nil =>
    have hnil : pascalChars name.toList = [] := by rw [← flatten_humps (pascalChars _), h]; rfl
    rw [hnil]
    rfl
  | cons w ws =>
    rw [recase_eq h, List.flatMap_cons]
    rfl

/-- Where no capital stands no word starts. -/
theorem startsWord_of_not_isUpper {next : Option Char} (h : b.isUpper = false) :
    startsWord a b next = false := by
  rw [startsWord, h, Bool.false_and]

/-- What starts a word: a capital behind a small letter or a digit, or one between a capital and a
small letter. -/
theorem startsWord_iff {next : Option Char} : startsWord a b next = true ↔
    b.isUpper = true ∧ ((a.isLower = true ∨ a.isDigit = true) ∨
      a.isUpper = true ∧ next.any Char.isLower = true) := by
  simp [startsWord, or_assoc]

/-- **A word starts in what comes back exactly where one starts in the name.** A letter in front may
have got or lost a capital; one that it gets is a word by itself, with a small letter two places
further on. -/
theorem startsWord_recased {starts : Bool} {rest : List Char}
    (hfirst : starts = true → a.isLower = false) :
    startsWord (recased starts a) (recased (startsWord a b rest.head?) b)
      (recase (startsWord a b rest.head?) (b :: rest)).tail.head? = startsWord a b rest.head? := by
  cases hstart : startsWord a b rest.head? with
  | false => exact startsWord_of_not_isUpper (not_isUpper_toLower b)
  | true =>
    obtain ⟨hb, hfront⟩ := startsWord_iff.mp hstart
    have hb' : recased true b = b := toUpper_of_not_isLower (by simp [not_isLower_of_isUpper hb])
    rw [hb', startsWord_iff]
    refine ⟨hb, ?_⟩
    rcases hfront with (ha | ha) | ⟨ha, hnext⟩
    · -- a small letter comes back as it is, since no word starts with it
      cases starts with
      | true => exact absurd (hfirst rfl) (by simp [ha])
      | false =>
        rw [recased, if_neg Bool.false_ne_true,
          toLower_of_not_isUpper (by simp [not_isUpper_of_isLower ha])]
        exact .inl (.inl ha)
    · have hdigit := isDigit_iff.mp ha
      have hsame : recased starts a = a := by
        rw [recased, toUpper_of_not_isLower (by rw [isLower_iff]; omega),
          toLower_of_not_isUpper (by rw [isUpper_iff]; omega), ite_self]
      rw [hsame]
      exact .inl (.inr ha)
    · cases starts with
      | false => exact .inl (.inl (isLower_toLower ha))
      | true =>
        have ha' : recased true a = a :=
          toUpper_of_not_isLower (by simp [not_isLower_of_isUpper ha])
        rw [ha']
        refine .inr ⟨ha, ?_⟩
        cases rest with
        | nil => cases hnext
        | cons c more =>
          have hc : c.isLower = true := hnext
          have hgoesOn : startsWord b c more.head? = false :=
            startsWord_of_not_isUpper (not_isUpper_of_isLower hc)
          rw [recase, List.tail_cons, head?_recase, hgoesOn, List.head?_cons, Option.map_some,
            recased, if_neg Bool.false_ne_true,
            toLower_of_not_isUpper (by simp [not_isUpper_of_isLower hc])]
          exact hc

/-- So the hyphens go where they went. -/
theorem hyphenate_recase {starts : Bool}
    (hfirst : starts = true → ∀ c ∈ cs.head?, c.isLower = false) :
    (hyphenate (recase starts cs)).map Char.toLower = (hyphenate cs).map Char.toLower := by
  induction cs generalizing starts with
  | nil => rfl
  | cons a cs ih =>
    cases cs with
    | nil => exact congrArg (fun c => [c]) toLower_recased
    | cons b rest =>
      have hnext := @ih (startsWord a b rest.head?) fun hstart c hc => by
        cases hc
        exact not_isLower_of_isUpper (startsWord_iff.mp hstart).1
      have hstart : startsWord (recased starts a) (recased (startsWord a b rest.head?) b)
          (recase (startsWord a b rest.head?) (b :: rest)).tail.head? = startsWord a b rest.head? :=
        startsWord_recased fun hs => hfirst hs a rfl
      obtain ⟨more, hmore⟩ : ∃ more, recase (startsWord a b rest.head?) (b :: rest) =
          recased (startsWord a b rest.head?) b :: more :=
        List.head?_eq_some_iff.mp (head?_recase _ _)
      rw [hmore, List.tail_cons] at hstart
      rw [hmore] at hnext
      rw [recase, hmore, hyphenate, hyphenate, hstart]
      split
      · rw [List.map_cons, List.map_cons, List.map_cons, List.map_cons, hnext, toLower_recased]
      · rw [List.map_cons, List.map_cons, hnext, toLower_recased]

/-- **The stem of a stem is the same stem.** -/
theorem kebab_kebab (name : String) : kebab (kebab name) = kebab name := by
  have hfirst : ∀ c ∈ (pascalChars name.toList).head?, c.isLower = false := by
    intro c hc
    obtain ⟨rest, hcons⟩ := List.head?_eq_some_iff.mp hc
    have hcapital := (pascalChars_isCanonical name.toList).capitalized
    rw [hcons] at hcapital
    have hupper : c.toUpper = c := (List.cons.inj hcapital).1
    rw [← hupper, ← Bool.not_eq_true]
    exact not_isLower_toUpper
  rw [kebab, pascalChars_kebab, hyphenate_recase fun _ => hfirst, ← kebab]

/-! ## All of it -/

/-- **Forms that are stable.** The canonical form of a name is made of letters and digits and is
its own canonical form; the camel form and the stem of a name are those of its canonical form; a
stem without its hyphens is the canonical form in lower case, and is its own stem; and any other
character parts the words on its two sides and leaves no trace. -/
theorem forms_stable (name : String) :
    (∀ c ∈ (pascal name).toList, c.isAlphanum = true) ∧ pascal (pascal name) = pascal name ∧
      camel (pascal name) = camel name ∧ kebab (pascal name) = kebab name ∧
      (kebab name).toList.filter (· ≠ '-') = (pascal name).toList.map Char.toLower ∧
      kebab (kebab name) = kebab name ∧
      ∀ (other : String) (c : Char), c.isAlphanum = false →
        pascal (name ++ String.singleton c ++ other) = pascal name ++ pascal other :=
  ⟨(isCanonical_pascal name).alphanumeric, pascal_pascal, camel_pascal name, kebab_pascal name,
    filter_kebab name, kebab_kebab name, fun other _ hc => pascal_append_append hc name other⟩

/-- A name with acronyms and single letters, and a character beyond ASCII in between. -/
theorem acronyms_stable :
    kebab "xHTTPServer2Go_aB" = "xhttp-server2-go-ab" ∧
      kebab (kebab "xHTTPServer2Go_aB") = "xhttp-server2-go-ab" ∧
      ('é').isAlphanum = false ∧ pascal "petéstore" = "PetStore" := by
  obtain ⟨-, -, -, -, -, hkebab, -⟩ := forms_stable "xHTTPServer2Go_aB"
  obtain ⟨-, -, -, -, -, -, happend⟩ := forms_stable "pet"
  have hstem : kebab "xHTTPServer2Go_aB" = "xhttp-server2-go-ab" := by decide
  have hother : ('é').isAlphanum = false := by decide
  have hparts : "pet" ++ String.singleton 'é' ++ "store" = "petéstore" := by decide
  refine ⟨hstem, hkebab.trans hstem, hother, ?_⟩
  rw [← hparts, happend "store" 'é' hother]
  decide

end Naming

end ApiMock
