/-!
# Text — runs, cutting and replacing

A text is read as a list of characters. `runs` cuts out the maximal
stretches that satisfy a test, which is how words are found everywhere
in this library: names are made of runs of letters and digits, comments
of runs of non-blank characters. Blanks are all of Unicode's spaces and
line breaks together with the four ASCII separators.

A text is also cut at a separator, joined again, and changed by replacing a
pair of characters wherever it stands. Joining undoes cutting, so no
character but the separator is lost.
-/

namespace ApiMock

namespace Text

/-! ## Runs and blanks -/

/-- Puts a character in front of the first run if it `joins` it, and
starts a run of its own otherwise. -/
def attach (c : Char) (joins : Bool) : List (List Char) → List (List Char)
  | [] => [[c]]
  | run :: others => if joins then (c :: run) :: others else [c] :: run :: others

/-- The maximal stretches of characters that satisfy `p`, in order. -/
def runs (p : Char → Bool) : List Char → List (List Char)
  | [] => []
  | c :: rest => if p c then attach c (rest.head?.any p) (runs p rest) else runs p rest

/-- A space or a line break of any script. -/
def isSpace (c : Char) : Bool :=
  let n := c.toNat
  (9 ≤ n && n ≤ 13) || n == 0x20 || n == 0x85 || n == 0xa0 || n == 0x1680 ||
    (0x2000 ≤ n && n ≤ 0x200a) || n == 0x2028 || n == 0x2029 || n == 0x202f || n == 0x205f ||
    n == 0x3000

/-- A space, a line break, or one of the four ASCII separators. -/
def isBlank (c : Char) : Bool :=
  isSpace c || (0x1c ≤ c.toNat && c.toNat ≤ 0x1f)

/-- The words of a text: its runs of non-blank characters. -/
def words (cs : List Char) : List (List Char) :=
  runs (fun c => !isBlank c) cs

/-- A text without the characters at its two ends that satisfy `p`. -/
def trim (p : Char → Bool) (cs : List Char) : List Char :=
  ((cs.dropWhile p).reverse.dropWhile p).reverse

/-! ## What runs are made of -/

/-- Every character of a run satisfies the test. -/
theorem forall_mem_runs {p : Char → Bool} {cs : List Char} :
    ∀ run ∈ runs p cs, ∀ c ∈ run, p c = true := by
  induction cs with
  | nil => simp [runs]
  | cons c rest ih =>
    rw [runs]
    split
    · cases h : runs p rest with
      | nil => simp_all [attach]
      | cons run others => rw [h] at ih; rw [attach]; split <;> grind
    · exact ih

/-- No run is empty. -/
theorem ne_nil_of_mem_runs {p : Char → Bool} {cs : List Char} :
    ∀ run ∈ runs p cs, run ≠ [] := by
  induction cs with
  | nil => simp [runs]
  | cons c rest ih =>
    rw [runs]
    split
    · cases h : runs p rest with
      | nil => simp [attach]
      | cons run others => rw [h] at ih; rw [attach]; split <;> simp_all
    · exact ih

/-! ## Cutting and replacing -/

/-- The pieces of a text between the separators; always one more than
there are separators. -/
def cut (sep : Char) : List Char → List (List Char)
  | [] => [[]]
  | c :: rest =>
    if c = sep then [] :: cut sep rest
    else
      match cut sep rest with
      | piece :: others => (c :: piece) :: others
      | [] => [[c]]

/-- The pieces with the separator put back between them. -/
def joinWith (sep : List Char) : List (List Char) → List Char
  | [] => []
  | [piece] => piece
  | piece :: others => piece ++ sep ++ joinWith sep others

/-- A text without the given characters at its end. -/
def stripEnd (p : Char → Bool) (cs : List Char) : List Char :=
  (cs.reverse.dropWhile p).reverse

/-- Every occurrence of the pair `a`, `b` replaced, from left to right. -/
def replacePair (a b : Char) (by' : List Char) : List Char → List Char
  | c :: d :: rest =>
    if c = a ∧ d = b then by' ++ replacePair a b by' rest
    else c :: replacePair a b by' (d :: rest)
  | cs => cs

/-- Every occurrence of one character replaced. -/
def replaceChar (a : Char) (by' : List Char) (cs : List Char) : List Char :=
  cs.flatMap fun c => if c = a then by' else [c]

/-! ## Cutting loses nothing -/

theorem cut_ne_nil (sep : Char) (cs : List Char) : cut sep cs ≠ [] := by
  cases cs with
  | nil => simp [cut]
  | cons c rest =>
    rw [cut]
    split
    · simp
    · split <;> simp

/-- Joining the pieces gives the text back. -/
theorem joinWith_cut (sep : Char) (cs : List Char) : joinWith [sep] (cut sep cs) = cs := by
  induction cs with
  | nil => rfl
  | cons c rest ih =>
    rw [cut]
    split
    · rename_i h
      obtain ⟨piece, others, heq⟩ := List.exists_cons_of_ne_nil (cut_ne_nil sep rest)
      rw [heq] at ih ⊢
      simp [joinWith, h, ih]
    · obtain ⟨piece, others, heq⟩ := List.exists_cons_of_ne_nil (cut_ne_nil sep rest)
      rw [heq] at ih ⊢
      cases others <;> simp_all [joinWith]

/-- No piece holds the separator. -/
theorem not_mem_of_mem_cut {sep : Char} {cs : List Char} :
    ∀ piece ∈ cut sep cs, sep ∉ piece := by
  induction cs with
  | nil => simp [cut]
  | cons c rest ih =>
    rw [cut]
    split
    · simpa using ih
    · rename_i h
      split
      · rename_i piece others heq
        rw [heq] at ih
        simp only [List.mem_cons, forall_eq_or_imp] at ih ⊢
        exact ⟨fun hmem => (hmem.elim (fun e => h e.symm) ih.1), ih.2⟩
      · simpa using fun e : sep = c => h e.symm

/-! ## Cutting what was joined -/

variable {sep : Char} {piece rest : List Char} {pieces : List (List Char)}

/-- A text without the separator is one piece. -/
theorem cut_of_notMem (h : sep ∉ piece) : cut sep piece = [piece] := by
  induction piece with
  | nil => rfl
  | cons c piece ih =>
    rw [List.mem_cons, not_or] at h
    rw [cut, if_neg (Ne.symm h.1), ih h.2]

/-- The first piece ends at the first separator. -/
theorem cut_append (h : sep ∉ piece) : cut sep (piece ++ sep :: rest) = piece :: cut sep rest := by
  induction piece with
  | nil => rw [List.nil_append, cut, if_pos rfl]
  | cons c piece ih =>
    rw [List.mem_cons, not_or] at h
    rw [List.cons_append, cut, if_neg (Ne.symm h.1), ih h.2]

/-- Cutting gives back pieces that were joined, if the separator is in none of them. -/
theorem cut_joinWith (hne : pieces ≠ []) (h : ∀ piece ∈ pieces, sep ∉ piece) :
    cut sep (joinWith [sep] pieces) = pieces := by
  fun_induction joinWith [sep] pieces with
  | case1 => exact absurd rfl hne
  | case2 piece => exact cut_of_notMem (h piece List.mem_cons_self)
  | case3 piece others hothers ih =>
    rw [List.append_assoc, List.singleton_append, cut_append (h piece List.mem_cons_self),
      ih hothers fun p hp => h p (List.mem_cons_of_mem piece hp)]

end Text

end ApiMock
