import ApiMock.Naming
/-!
# Naming — the placeholders of a path

Which placeholders a path shows can be said by the matches of
`\{([^}/]+)\}`: the leftmost one, and the next one behind it (`Shows`).
Reading a path character by character finds the same names
(`shows_placeholderNames`). A name never reaches over a slash, so the
names of a path are those of its segments (`placeholderNames_eq_flatMap`),
and the last of them is that of the last segment if that is a placeholder.
-/

namespace ApiMock

namespace Naming

open Text

variable {cs tail rest behind name p xs ys : List Char} {names names' : List (List Char)}
  {pending : Option (List Char)}

/-! ## Matches -/

/-- A text without a closing brace and without a slash. -/
def Enclosed (cs : List Char) : Prop := ∀ c ∈ cs, c ≠ '}' ∧ c ≠ '/'

/-- At the front of a text stands a name in braces: one or more characters
of which none closes it. -/
structure FrontMatch (cs name rest : List Char) : Prop where
  eq : cs = '{' :: (name ++ '}' :: rest)
  ne_nil : name ≠ []
  enclosed : Enclosed name

/-- `Shows cs names` says that `names` stand in braces in `cs`: from left to
right, each behind the one before. -/
inductive Shows : List Char → List (List Char) → Prop where
  | nil : Shows [] []
  | skip {c : Char} {rest : List Char} {names : List (List Char)}
    (h : ∀ name behind, ¬ FrontMatch (c :: rest) name behind) (onward : Shows rest names) :
    Shows (c :: rest) names
  | take {cs name rest : List Char} {names : List (List Char)} (h : FrontMatch cs name rest)
    (onward : Shows rest names) : Shows cs (name :: names)

theorem Enclosed.cons {c : Char} (hc : c ≠ '}' ∧ c ≠ '/') (h : Enclosed cs) : Enclosed (c :: cs) :=
  List.forall_mem_cons.mpr ⟨hc, h⟩

theorem Enclosed.append (h : Enclosed xs) (h' : Enclosed ys) : Enclosed (xs ++ ys) := by
  intro c hc
  exact (List.mem_append.mp hc).elim (h c) (h' c)

/-- The name ends at the first closing brace, so a match has one name. -/
theorem FrontMatch.unique {name' rest' : List Char} (h : FrontMatch cs name rest)
    (h' : FrontMatch cs name' rest') : name = name' ∧ rest = rest' := by
  have htexts : name ++ '}' :: rest = name' ++ '}' :: rest' := by
    have heq := h.eq.symm.trans h'.eq
    exact (List.cons.inj heq).2
  have hstop : ∀ n : List Char, Enclosed n → ∀ r, (n ++ '}' :: r).takeWhile (· ≠ '}') = n := by
    intro n hn r
    rw [List.takeWhile_append_of_pos fun c hc => by simpa using (hn c hc).1]
    simp
  have hname : name = name' := by
    rw [← hstop name h.enclosed rest, htexts, hstop name' h'.enclosed rest']
  subst hname
  have hrest : '}' :: rest = '}' :: rest' := List.append_cancel_left htexts
  exact ⟨rfl, (List.cons.inj hrest).2⟩

/-- **A text shows one list of names.** -/
theorem Shows.unique (h : Shows cs names) (h' : Shows cs names') : names = names' := by
  induction h generalizing names' with
  | nil =>
    cases h' with
    | nil => rfl
    | take hmatch _ => cases hmatch.eq
  | skip hnone _ ih =>
    cases h' with
    | skip _ onward => exact ih onward
    | take hmatch _ => exact absurd hmatch (hnone _ _)
  | take hmatch _ ih =>
    cases h' with
    | nil => cases hmatch.eq
    | skip hnone _ => exact absurd hmatch (hnone _ _)
    | take hmatch' onward =>
      obtain ⟨rfl, rfl⟩ := hmatch.unique hmatch'
      rw [ih onward]

/-! ## What is read -/

/-- Where no brace closes before the next slash, or before the end, no name
starts. -/
theorem not_frontMatch (hxs : Enclosed xs) (htail : tail.head?.all (· = '/') = true) :
    ¬ FrontMatch (xs ++ tail) name behind := by
  intro h
  cases xs with
  | nil =>
    have hhead : tail.head? = some '{' := by
      rw [← List.nil_append tail, h.eq]
      rfl
    rw [hhead] at htail
    exact absurd htail (by decide)
  | cons c xs =>
    have htexts : xs ++ tail = name ++ '}' :: behind := by
      have heq := h.eq
      rw [List.cons_append] at heq
      exact (List.cons.inj heq).2
    obtain ⟨-, hxs⟩ := List.forall_mem_cons.mp hxs
    -- the brace closes within `xs`, or the name reaches over what stops it
    rcases List.append_eq_append_iff.mp htexts with ⟨spill, hname, htail'⟩ | ⟨inner, hinner, hclose⟩
    · cases spill with
      | nil =>
        rw [List.nil_append] at htail'
        rw [htail', List.head?_cons] at htail
        exact absurd htail (by decide)
      | cons d spill =>
        rw [htail', List.cons_append, List.head?_cons, Option.all_some, decide_eq_true_iff] at htail
        have hslash := h.enclosed d (by rw [hname]; simp)
        exact hslash.2 htail
    · cases inner with
      | nil =>
        rw [List.nil_append] at hclose
        rw [← hclose, List.head?_cons] at htail
        exact absurd htail (by decide)
      | cons d inner =>
        have hbrace : d = '}' := (List.cons.inj hclose).1.symm
        have hopen := hxs d (by rw [hinner]; simp)
        exact hopen.1 hbrace

/-- So such a text adds no names to what follows. -/
theorem Shows.append (hxs : Enclosed xs) (htail : tail.head?.all (· = '/') = true)
    (h : Shows tail names) : Shows (xs ++ tail) names := by
  induction xs with
  | nil => exact h
  | cons c xs ih =>
    obtain ⟨-, hrest⟩ := List.forall_mem_cons.mp hxs
    exact .skip (fun _ _ => not_frontMatch hxs htail) (ih hrest)

/-- A character other than an opening brace is passed over. -/
theorem Shows.pass {c : Char} (hc : c ≠ '{') (h : Shows rest names) : Shows (c :: rest) names := by
  refine .skip (fun name behind hmatch => hc ?_) h
  exact (List.cons.inj hmatch.eq).1

/-- What has been read of a placeholder. -/
def opened : Option (List Char) → List Char
  | none => []
  | some name => '{' :: name

/-- What is read are the names that stand in braces, also in the middle of a
placeholder. -/
theorem shows_opened (hpending : ∀ name ∈ pending, Enclosed name) :
    Shows (opened pending ++ cs) (placeholderNames pending cs) := by
  have hbrace : ∀ {name : List Char}, Enclosed name → Enclosed ('{' :: name) :=
    fun h => .cons (by decide) h
  fun_induction placeholderNames pending cs with
  | case1 pending =>
    rw [List.append_nil]
    cases pending with
    | none => exact .nil
    | some name =>
      have hend : Shows ('{' :: name ++ []) [] := .append (hbrace (hpending name rfl)) rfl .nil
      rwa [List.append_nil] at hend
  | case2 c rest ih =>
    by_cases hc : c = '{'
    · subst hc
      exact ih (by simp [Enclosed])
    · rw [if_neg hc] at ih ⊢
      exact .pass hc (ih (by simp))
  | case3 name rest hname ih =>
    -- the braces are empty: neither of them starts a name
    rw [List.isEmpty_iff] at hname
    subst hname
    refine .skip (fun name behind hmatch => ?_) (.pass (by decide) (ih (by simp)))
    have htexts : '}' :: rest = name ++ '}' :: behind := (List.cons.inj hmatch.eq).2
    cases name with
    | nil => exact hmatch.ne_nil rfl
    | cons d name =>
      have hd : '}' = d := (List.cons.inj htexts).1
      exact (hmatch.enclosed d List.mem_cons_self).1 hd.symm
  | case4 name rest hname ih =>
    rw [List.isEmpty_iff] at hname
    exact .take ⟨rfl, hname, hpending name rfl⟩ (ih (by simp))
  | case5 name rest _ ih =>
    have hrest : Shows ('/' :: rest) (placeholderNames none rest) := .pass (by decide) (ih (by simp))
    exact Shows.append (hbrace (hpending name rfl)) rfl hrest
  | case6 name c rest hclose hslash ih =>
    have hlonger : Enclosed (name ++ [c]) :=
      (hpending name rfl).append (.cons ⟨hclose, hslash⟩ (by simp [Enclosed]))
    have hshows := ih fun n hn => by
      cases hn
      exact hlonger
    simpa [opened] using hshows

/-- **What is read of a path are the names that stand in braces in it.** -/
theorem shows_placeholderNames (cs : List Char) : Shows cs (placeholderNames none cs) :=
  @shows_opened cs none (by simp)

/-- The names that a path shows, as often as they stand there. -/
def shownNames (path : String) : List String :=
  (placeholderNames none path.toList).map String.ofList

/-- The placeholders are these names, each where it comes first. -/
theorem placeholders_eq (path : String) : placeholders path = (shownNames path).eraseDups := rfl

/-- `PathShows path names` says that `names` stand in braces in a path. -/
def PathShows (path : String) (names : List String) : Prop :=
  Shows path.toList (names.map String.toList)

theorem pathShows_shownNames (path : String) : PathShows path (shownNames path) := by
  have hsame : ∀ names : List (List Char), (names.map String.ofList).map String.toList = names := by
    intro names
    simp
  rw [PathShows, shownNames, hsame]
  exact shows_placeholderNames _

/-! ## Segments -/

/-- A slash gives up what was read of a placeholder. -/
theorem placeholderNames_append_slash : placeholderNames pending (xs ++ '/' :: ys) =
    placeholderNames pending xs ++ placeholderNames none ys := by
  fun_induction placeholderNames pending xs with
  | case1 pending =>
    cases pending with
    | none => rfl
    | some name => rfl
  | case2 c rest ih => rw [List.cons_append, placeholderNames, ih]
  | case3 name rest hname ih =>
    rw [List.cons_append, placeholderNames, if_pos rfl, if_pos hname, ih]
  | case4 name rest hname ih =>
    rw [List.cons_append, placeholderNames, if_pos rfl, if_neg hname, ih, List.cons_append]
  | case5 name rest _ ih =>
    rw [List.cons_append, placeholderNames, if_neg (by decide), if_pos rfl, ih]
  | case6 name c rest hclose hslash ih =>
    rw [List.cons_append, placeholderNames, if_neg hclose, if_neg hslash, ih]

theorem placeholderNames_joinWith (pieces : List (List Char)) :
    placeholderNames none (joinWith ['/'] pieces) = pieces.flatMap (placeholderNames none) := by
  fun_induction joinWith ['/'] pieces with
  | case1 => rfl
  | case2 piece => rw [List.flatMap_singleton]
  | case3 piece others _ ih =>
    rw [List.append_assoc, List.singleton_append, placeholderNames_append_slash, ih,
      List.flatMap_cons]

/-- **The names of a path are those of its segments**, in their order. -/
theorem placeholderNames_eq_flatMap (cs : List Char) :
    placeholderNames none cs = (segments cs).flatMap (placeholderNames none) := by
  have hempty : ∀ pieces : List (List Char), (pieces.filter (!·.isEmpty)).flatMap
      (placeholderNames none) = pieces.flatMap (placeholderNames none) := by
    intro pieces
    induction pieces with
    | nil => rfl
    | cons piece others ih =>
      cases piece with
      | nil =>
        rw [List.filter_cons_of_neg (by simp), ih]
        rfl
      | cons c piece =>
        rw [List.filter_cons_of_pos (by simp), List.flatMap_cons, ih, List.flatMap_cons]
  have hpieces := placeholderNames_joinWith (cut '/' cs)
  rw [joinWith_cut] at hpieces
  rw [hpieces, segments, hempty]

/-- A name in braces is the only one that its segment shows. -/
theorem placeholderNames_braces (hne : p ≠ []) (hp : Enclosed p) :
    placeholderNames none ('{' :: (p ++ ['}'])) = [p] :=
  (shows_placeholderNames _).unique (.take ⟨rfl, hne, hp⟩ .nil)

/-- A path ends in the placeholder of this name: behind it are slashes at
most. -/
def EndsIn (path p : String) : Prop :=
  (segments path.toList).getLast? = some ('{' :: (p.toList ++ ['}']))

instance (path p : String) : Decidable (EndsIn path p) :=
  inferInstanceAs (Decidable (_ = _))

/-- **The last name of a path that ends in a placeholder is that of the
placeholder.** -/
theorem EndsIn.exists_names {path name : String} (h : EndsIn path name) (hne : name ≠ "")
    (hclose : '}' ∉ name.toList) : ∃ front, shownNames path = front ++ [name] := by
  obtain ⟨front, hfront⟩ := List.getLast?_eq_some_iff.mp h
  have hslash : '/' ∉ name.toList := by
    -- a segment is a piece between slashes
    have hmem : '{' :: (name.toList ++ ['}']) ∈ segments path.toList := by
      rw [hfront]
      exact List.mem_append_right _ (List.mem_singleton_self _)
    have hpiece := not_mem_of_mem_cut _ (List.mem_filter.mp hmem).1
    intro hin
    exact hpiece (List.mem_cons_of_mem _ (List.mem_append_left _ hin))
  have henclosed : Enclosed name.toList := by
    intro c hc
    exact ⟨fun heq => hclose (heq ▸ hc), fun heq => hslash (heq ▸ hc)⟩
  have hname : name.toList ≠ [] := fun hnil => hne (String.toList_eq_nil_iff.mp hnil)
  refine ⟨(front.flatMap (placeholderNames none)).map String.ofList, ?_⟩
  rw [shownNames, placeholderNames_eq_flatMap, hfront, List.flatMap_append,
    List.flatMap_singleton, placeholderNames_braces hname henclosed, List.map_append,
    List.map_singleton, String.ofList_toList]

end Naming

end ApiMock
