import ApiMock.Proofs.Naming.Canonical
import Mathlib.Data.List.Chain
/-!
# Naming — file stems

A canonical name becomes a file stem by a hyphen wherever a new word
starts in it. `humps` are the words that are found so. The stem is made of
them in lower case, hence a slug: words of small letters and digits with
single hyphens between them. It loses nothing but case, and the case comes
back from a name in which no two capitals stand side by side.
-/

namespace ApiMock

namespace Naming

open Text

variable {cs : List Char} {name other : String}

/-- The words that start inside of a name. -/
def humps : List Char → List (List Char)
  | a :: b :: rest => attach a (!startsWord a b rest.head?) (humps (b :: rest))
  | [a] => [[a]]
  | [] => []

/-- The words of the stem of a name. -/
def slugWords (name : String) : List (List Char) :=
  (humps (pascalChars name.toList)).map fun w => w.map Char.toLower

/-- A character a slug is made of, besides the hyphens between its words. -/
def isSlugChar (c : Char) : Bool :=
  c.isLower || c.isDigit

/-- A slug: one or more words of small letters and digits, a single hyphen
between any two of them. -/
def IsSlug (s : String) : Prop :=
  ∃ ws : List (List Char), ws ≠ [] ∧ (∀ w ∈ ws, IsRun isSlugChar w) ∧
    s.toList = joinWith ['-'] ws

/-- Small letters, digits and hyphens, with a hyphen neither at the start
nor at the end nor beside another one. -/
structure SingleHyphens (cs : List Char) : Prop where
  chars : ∀ c ∈ cs, isSlugChar c = true ∨ c = '-'
  first : cs.head?.any isSlugChar = true
  last : cs.getLast?.any isSlugChar = true
  apart : cs.IsChain fun a b => ¬ (a = '-' ∧ b = '-')

/-- No two capitals stand side by side. -/
def SingleCapitals (cs : List Char) : Prop :=
  cs.IsChain fun a b => ¬ (a.isUpper = true ∧ b.isUpper = true)

instance : DecidablePred SingleCapitals := fun cs =>
  inferInstanceAs (Decidable (cs.IsChain fun a b => ¬ (a.isUpper = true ∧ b.isUpper = true)))

/-! ## Humps -/

/-- The first hump starts where the name does. -/
theorem humps_cons (a : Char) (rest : List Char) : ∃ t ws, humps (a :: rest) = (a :: t) :: ws := by
  cases rest with
  | nil => exact ⟨[], [], rfl⟩
  | cons b rest =>
    rw [humps]
    cases humps (b :: rest) with
    | nil => exact ⟨[], [], rfl⟩
    | cons w ws =>
      cases startsWord a b rest.head? with
      | true => exact ⟨[], w :: ws, rfl⟩
      | false => exact ⟨w, ws, rfl⟩

/-- A character is put into the first hump, or is a hump before it. -/
theorem humps_cons_cons (a b : Char) (rest : List Char) :
    ∃ t ws, humps (b :: rest) = (b :: t) :: ws ∧
      humps (a :: b :: rest) =
        if startsWord a b rest.head? then [a] :: (b :: t) :: ws else (a :: b :: t) :: ws := by
  obtain ⟨t, ws, h⟩ := humps_cons b rest
  refine ⟨t, ws, h, ?_⟩
  rw [humps, h, attach]
  cases startsWord a b rest.head? <;> rfl

/-- The induction over the characters of a name: a character alone, and one
in front of a name whose first hump is known. -/
@[elab_as_elim]
theorem humps_induction {P : List Char → List (List Char) → Prop} (nil : P [] [])
    (single : ∀ a, P [a] [[a]])
    (starts : ∀ a b rest t ws, startsWord a b rest.head? = true → P (b :: rest) ((b :: t) :: ws) →
      P (a :: b :: rest) ([a] :: (b :: t) :: ws))
    (goesOn : ∀ a b rest t ws, ¬ startsWord a b rest.head? = true →
      P (b :: rest) ((b :: t) :: ws) → P (a :: b :: rest) ((a :: b :: t) :: ws))
    (cs : List Char) : P cs (humps cs) := by
  induction cs with
  | nil => exact nil
  | cons a cs ih =>
    cases cs with
    | nil => exact single a
    | cons b rest =>
      obtain ⟨t, ws, h, heq⟩ := humps_cons_cons a b rest
      rw [h] at ih
      rw [heq]
      split
      · exact starts a b rest t ws ‹_› ih
      · exact goesOn a b rest t ws ‹_› ih

/-- The humps make up the name. -/
theorem flatten_humps (cs : List Char) : (humps cs).flatten = cs := by
  induction cs using humps_induction with
  | nil => rfl
  | single a => rfl
  | starts a b rest t ws _ ih => simpa using ih
  | goesOn a b rest t ws _ ih => simpa using ih

theorem ne_nil_of_mem_humps {w : List Char} (hw : w ∈ humps cs) : w ≠ [] := by
  induction cs using humps_induction with
  | nil => cases hw
  | single a =>
    rw [List.mem_singleton.mp hw]
    exact List.cons_ne_nil a []
  | starts a b rest t ws _ ih =>
    rcases List.mem_cons.mp hw with rfl | hw
    · exact List.cons_ne_nil a []
    · exact ih hw
  | goesOn a b rest t ws _ ih =>
    rcases List.mem_cons.mp hw with rfl | hw
    · exact List.cons_ne_nil a (b :: t)
    · exact ih (List.mem_cons_of_mem _ hw)

/-- What stands in a hump stands in the name. -/
theorem mem_of_mem_humps {w : List Char} (hw : w ∈ humps cs) : ∀ c ∈ w, c ∈ cs := by
  intro c hc
  rw [← flatten_humps cs]
  exact List.mem_flatten.mpr ⟨w, hw, hc⟩

/-- **Hyphens are put between the humps.** -/
theorem hyphenate_eq_joinWith (cs : List Char) : hyphenate cs = joinWith ['-'] (humps cs) := by
  induction cs using humps_induction with
  | nil => rfl
  | single a => rfl
  | starts a b rest t ws hstart ih =>
    rw [hyphenate, if_pos hstart, ih]
    simp [joinWith]
  | goesOn a b rest t ws hstart ih =>
    rw [hyphenate, if_neg hstart, ih]
    cases ws <;> simp [joinWith]

/-! ## The stem is a slug -/

/-- A change of every character passes through joining. -/
theorem map_joinWith {f : Char → Char} {sep : List Char} (ws : List (List Char)) :
    (joinWith sep ws).map f = joinWith (sep.map f) (ws.map fun w => w.map f) := by
  induction ws with
  | nil => rfl
  | cons w ws ih =>
    cases ws with
    | nil => rfl
    | cons v ws =>
      rw [List.map_cons] at ih
      simp [joinWith, ih]

theorem toList_kebab : (kebab name).toList = joinWith ['-'] (slugWords name) := by
  rw [kebab, String.toList_ofList, hyphenate_eq_joinWith, map_joinWith, slugWords]
  rfl

/-- The words of a stem are not empty and hold small letters and digits. -/
theorem isRun_of_mem_slugWords : ∀ w ∈ slugWords name, IsRun isSlugChar w := by
  intro w hw
  obtain ⟨v, hv, rfl⟩ := List.mem_map.mp hw
  refine ⟨by simpa using ne_nil_of_mem_humps hv, fun c hc => ?_⟩
  obtain ⟨d, hd, rfl⟩ := List.mem_map.mp hc
  have halnum : d.isAlphanum = true :=
    (pascalChars_isCanonical name.toList).alphanumeric d (mem_of_mem_humps hv d hd)
  rw [isSlugChar, Bool.or_eq_true]
  exact toLower_of_isAlphanum halnum

/-- **The stem of a name with a letter or digit is a slug.** -/
theorem isSlug_kebab (h : (pascal name).toList ≠ []) : IsSlug (kebab name) := by
  rw [pascal, String.toList_ofList] at h
  obtain ⟨a, rest, hcons⟩ := List.exists_cons_of_ne_nil h
  obtain ⟨t, ws, hhumps⟩ := humps_cons a rest
  refine ⟨slugWords name, ?_, isRun_of_mem_slugWords, toList_kebab⟩
  rw [slugWords, hcons, hhumps]
  simp

/-- No hyphen is one of the other characters of a slug. -/
theorem ne_hyphen_of_isSlugChar {c : Char} (h : isSlugChar c = true) : c ≠ '-' := by
  rintro rfl
  exact absurd h (by decide)

/-- A word by itself has no hyphen at all. -/
theorem SingleHyphens.of_isRun {w : List Char} (hw : IsRun isSlugChar w) : SingleHyphens w := by
  obtain ⟨hne, hall⟩ := hw
  refine ⟨fun c hc => .inl (hall c hc), ?_, ?_, ?_⟩
  · rw [List.head?_eq_some_head hne]
    exact hall _ (List.head_mem hne)
  · rw [List.getLast?_eq_some_getLast hne]
    exact hall _ (List.getLast_mem hne)
  · refine (List.pairwise_of_forall_mem_list fun c hc _ _ hboth => ?_).isChain
    exact ne_hyphen_of_isSlugChar (hall c hc) hboth.1

/-- A word and a hyphen may stand in front. -/
theorem SingleHyphens.append {w : List Char} (hw : IsRun isSlugChar w) (h : SingleHyphens cs) :
    SingleHyphens (w ++ '-' :: cs) := by
  have hword := SingleHyphens.of_isRun hw
  obtain ⟨hne, hall⟩ := hw
  obtain ⟨c, rest, rfl⟩ : ∃ c rest, cs = c :: rest := by
    cases cs with
    | nil => exact absurd h.first (by simp)
    | cons c rest => exact ⟨c, rest, rfl⟩
  have hc : c ≠ '-' := ne_hyphen_of_isSlugChar (by simpa using h.first)
  refine ⟨?_, ?_, ?_, ?_⟩
  · intro d hd
    rcases List.mem_append.mp hd with hd | hd
    · exact .inl (hall d hd)
    · rcases List.mem_cons.mp hd with rfl | hd
      · exact .inr rfl
      · exact h.chars d hd
  · rw [List.head?_append_of_ne_nil _ hne]
    exact hword.first
  · rw [List.getLast?_append_cons, List.getLast?_cons_cons]
    exact h.last
  · refine List.isChain_append.mpr ⟨hword.apart, ?_, ?_⟩
    · exact List.isChain_cons_cons.mpr ⟨fun hboth => hc hboth.2, h.apart⟩
    · intro d hd _ _ hboth
      exact ne_hyphen_of_isSlugChar (hall d (List.mem_of_getLast? hd)) hboth.1

/-- A slug holds nothing but small letters, digits and hyphens between them. -/
theorem IsSlug.singleHyphens {s : String} (h : IsSlug s) : SingleHyphens s.toList := by
  obtain ⟨ws, hne, hws, hs⟩ := h
  rw [hs]
  clear hs
  induction ws with
  | nil => exact absurd rfl hne
  | cons w ws ih =>
    have hw : IsRun isSlugChar w := hws w List.mem_cons_self
    cases ws with
    | nil => exact .of_isRun hw
    | cons v ws =>
      rw [joinWith, List.append_assoc, List.singleton_append]
      · exact .append hw (ih (List.cons_ne_nil v ws) fun u hu => hws u (List.mem_cons_of_mem w hu))
      · simp

/-! ## What a stem tells of its name -/

/-- The words of the stem are the words it is made of. -/
theorem wordsOf_kebab : wordsOf (kebab name).toList = slugWords name := by
  rw [toList_kebab, wordsOf]
  refine runs_joinWith rfl fun w hw => ?_
  obtain ⟨hne, hall⟩ := isRun_of_mem_slugWords w hw
  refine ⟨hne, fun c hc => ?_⟩
  have hslug : isSlugChar c = true := hall c hc
  rw [isSlugChar, Bool.or_eq_true] at hslug
  exact isAlphanum_iff.mpr (.inr hslug)

/-- **Names share their stem exactly when they share its words.** -/
theorem kebab_eq_iff : kebab name = kebab other ↔ slugWords name = slugWords other := by
  constructor
  · intro h
    rw [← wordsOf_kebab, ← wordsOf_kebab, h]
  · intro h
    rw [← String.toList_inj, toList_kebab, toList_kebab, h]

/-- In a name of letters and digits whose capitals are single, a capital is
the start of a hump or of the name. -/
theorem not_isUpper_of_mem_tail {w : List Char} (halnum : ∀ c ∈ cs, c.isAlphanum = true)
    (hsingle : SingleCapitals cs) (hw : w ∈ humps cs) : ∀ c ∈ w.tail, ¬ c.isUpper = true := by
  induction cs using humps_induction generalizing w with
  | nil => cases hw
  | single a =>
    rw [List.mem_singleton.mp hw]
    simp
  | starts a b rest t ws _ ih =>
    obtain ⟨-, hrest⟩ := List.isChain_cons_cons.mp hsingle
    rcases List.mem_cons.mp hw with rfl | hw
    · simp
    · exact ih (fun c hc => halnum c (List.mem_cons_of_mem a hc)) hrest hw
  | goesOn a b rest t ws hstart ih =>
    obtain ⟨hab, hrest⟩ := List.isChain_cons_cons.mp hsingle
    have halnum' : ∀ c ∈ b :: rest, c.isAlphanum = true :=
      fun c hc => halnum c (List.mem_cons_of_mem a hc)
    rcases List.mem_cons.mp hw with rfl | hw
    · intro c hc
      rcases List.mem_cons.mp hc with rfl | hc
      · -- no word starts here, so in front of a capital there would be another one
        intro hupper
        rcases isAlphanum_iff.mp (halnum a List.mem_cons_self) with ha | ha | ha
        · exact hab ⟨ha, hupper⟩
        · exact hstart (by simp [startsWord, hupper, ha])
        · exact hstart (by simp [startsWord, hupper, ha])
      · exact ih halnum' hrest List.mem_cons_self c hc
    · exact ih halnum' hrest (List.mem_cons_of_mem _ hw)

/-- Every hump but the first starts with a capital. -/
theorem isUpper_of_mem_tail_humps {c : Char} {t : List Char} (hw : c :: t ∈ (humps cs).tail) :
    c.isUpper = true := by
  induction cs using humps_induction with
  | nil => cases hw
  | single a => cases hw
  | starts a b rest s ws hstart ih =>
    rcases List.mem_cons.mp hw with h | hw
    · cases h
      rw [startsWord, Bool.and_eq_true] at hstart
      exact hstart.1
    · exact ih hw
  | goesOn a b rest s ws _ ih => exact ih hw

/-- So a hump gets its case back by a capital at its start. -/
theorem capitalize_map_toLower {w : List Char} (hcs : IsCanonical cs) (hsingle : SingleCapitals cs)
    (hw : w ∈ humps cs) : capitalize (w.map Char.toLower) = w := by
  obtain ⟨c, t, rfl⟩ := List.exists_cons_of_ne_nil (ne_nil_of_mem_humps hw)
  have htail : ∀ d ∈ t, ¬ d.isUpper = true :=
    not_isUpper_of_mem_tail hcs.alphanumeric hsingle hw
  have hlower : ¬ c.isLower = true := by
    cases cs with
    | nil => cases hw
    | cons a rest =>
      obtain ⟨s, ws, h⟩ := humps_cons a rest
      rw [h] at hw
      rcases List.mem_cons.mp hw with heq | hw
      · -- the first hump starts the name, which is capitalised
        cases heq
        have hupper : c.toUpper = c := (List.cons.inj hcs.capitalized).1
        rw [← hupper]
        exact not_isLower_toUpper
      · have hin : c :: t ∈ (humps (a :: rest)).tail := by
          rw [h]
          exact hw
        have hupper : c.isUpper = true := isUpper_of_mem_tail_humps hin
        rw [isUpper_iff] at hupper
        rw [isLower_iff]
        omega
  have hrest : t.map Char.toLower = t := by
    rw [List.map_congr_left fun d hd => toLower_of_not_isUpper (htail d hd), List.map_id']
  rw [List.map_cons, capitalize, toUpper_toLower hlower, hrest]

/-- **A stem gives its name back** if no two capitals stand side by side in
the name. -/
theorem pascal_kebab (h : SingleCapitals (pascal name).toList) :
    pascal (kebab name) = pascal name := by
  rw [pascal, String.toList_ofList] at h
  have hwords : pascalChars (kebab name).toList = (humps (pascalChars name.toList)).flatten := by
    rw [pascalChars, wordsOf_kebab, slugWords, List.flatMap_map, List.flatMap_def,
      List.map_congr_left fun w hw => capitalize_map_toLower (pascalChars_isCanonical _) h hw,
      List.map_id']
  rw [pascal, hwords, flatten_humps, pascal]

/-- Two names of which one is `PetStore` and the other `PETStore`: only the
first comes back from the stem that they share. -/
example : kebab "PetStore" = kebab "PETStore" ∧ pascal (kebab "PETStore") = "PetStore" := by
  decide

end Naming

end ApiMock
