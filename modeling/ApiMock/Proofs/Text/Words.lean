import ApiMock.Text.Split
/-!
# Text — runs that are joined

Runs that are joined by a character that belongs to none are found again.
So a text made of words between separators says which words it is made of.
-/

namespace ApiMock

namespace Text

variable {p : Char → Bool} {w rest : List Char} {sep : Char} {ws : List (List Char)}

/-- A word that is one run: it is not empty and satisfies the test
throughout. -/
def IsRun (p : Char → Bool) (w : List Char) : Prop :=
  w ≠ [] ∧ ∀ c ∈ w, p c = true

/-- In front of what does not satisfy the test, a word is the first run. -/
theorem runs_append (hw : IsRun p w) (hrest : rest.head?.any p = false) :
    runs p (w ++ rest) = w :: runs p rest := by
  obtain ⟨hne, hall⟩ := hw
  induction w with
  | nil => exact absurd rfl hne
  | cons c w ih =>
    have hc : p c = true := hall c List.mem_cons_self
    rw [List.cons_append, runs, if_pos hc]
    cases w with
    | nil =>
      rw [List.nil_append, hrest]
      cases runs p rest <;> rfl
    | cons d w =>
      have hd : p d = true := hall d (List.mem_cons_of_mem c List.mem_cons_self)
      rw [ih (List.cons_ne_nil d w) fun e he => hall e (List.mem_cons_of_mem c he)]
      simp [attach, hd]

/-- It is what stands before the first character that does not. -/
theorem takeWhile_word (hw : ∀ c ∈ w, p c = true) (hrest : rest.head?.any p = false) :
    (w ++ rest).takeWhile p = w ∧ (w ++ rest).dropWhile p = rest := by
  have hstop : rest.takeWhile p = [] ∧ rest.dropWhile p = rest := by
    cases rest with
    | nil => exact ⟨rfl, rfl⟩
    | cons c cs =>
      have hc : ¬ p c = true := by simpa using hrest
      exact ⟨List.takeWhile_cons_of_neg hc, List.dropWhile_cons_of_neg hc⟩
  rw [List.takeWhile_append_of_pos hw, List.dropWhile_append_of_pos hw, hstop.1, hstop.2,
    List.append_nil]
  exact ⟨rfl, rfl⟩

/-- A word by itself is its only run. -/
theorem runs_of_isRun (hw : IsRun p w) : runs p w = [w] := by
  have h : runs p (w ++ []) = w :: runs p [] := runs_append hw rfl
  rwa [List.append_nil] at h

/-- What does not satisfy the test is passed over. -/
theorem runs_cons_of_not (h : p sep = false) : runs p (sep :: rest) = runs p rest := by
  rw [runs, if_neg (by simp [h])]

/-- Without a run there is no character to go on with. -/
theorem head?_any_of_runs_eq_nil (h : runs p rest = []) : rest.head?.any p = false := by
  cases rest with
  | nil => rfl
  | cons c cs =>
    rw [List.head?_cons, Option.any_some, ← Bool.not_eq_true]
    intro hc
    rw [runs, if_pos hc] at h
    cases hrest : runs p cs with
    | nil => rw [hrest] at h; cases h
    | cons w ws => rw [hrest, attach] at h; split at h <;> cases h

/-- Behind a character that belongs to no run, runs start anew. -/
theorem runs_append_cons (hsep : p sep = false) (before after : List Char) :
    runs p (before ++ sep :: after) = runs p before ++ runs p after := by
  induction before with
  | nil => exact runs_cons_of_not hsep
  | cons c before ih =>
    have hfirst : (before ++ sep :: after).head?.any p = before.head?.any p := by
      cases before with
      | nil => exact hsep
      | cons => rfl
    rw [List.cons_append, runs, runs, ih, hfirst]
    split
    · cases hruns : runs p before with
      | nil =>
        rw [head?_any_of_runs_eq_nil hruns, List.nil_append]
        cases runs p after <;> rfl
      | cons w ws =>
        rw [List.cons_append, attach, attach]
        split <;> rfl
    · rfl

/-- The runs are the characters that satisfy the test, in their order. -/
theorem flatten_runs (cs : List Char) : (runs p cs).flatten = cs.filter p := by
  induction cs with
  | nil => rfl
  | cons c rest ih =>
    by_cases hc : p c = true
    · rw [runs, if_pos hc, List.filter_cons_of_pos hc, ← ih]
      cases runs p rest with
      | nil => rfl
      | cons run others =>
        rw [attach]
        split <;> rfl
    · rw [runs, if_neg hc, List.filter_cons_of_neg hc, ih]

/-- What is joined has no other characters than the words and what stands between them. -/
theorem mem_joinWith {between : List Char} {c : Char} (h : c ∈ joinWith between ws) :
    c ∈ between ∨ ∃ w ∈ ws, c ∈ w := by
  fun_induction joinWith between ws with
  | case1 => cases h
  | case2 w => exact .inr ⟨w, List.mem_cons_self, h⟩
  | case3 w others _ ih =>
    rcases List.mem_append.mp h with h | h
    · exact (List.mem_append.mp h).symm.imp_right fun h => ⟨w, List.mem_cons_self, h⟩
    · refine (ih h).imp_right ?_
      rintro ⟨other, hother, hc⟩
      exact ⟨other, List.mem_cons_of_mem w hother, hc⟩

/-- **Words that are joined are found again.** -/
theorem runs_joinWith (hsep : p sep = false) (hws : ∀ w ∈ ws, IsRun p w) :
    runs p (joinWith [sep] ws) = ws := by
  induction ws with
  | nil => rfl
  | cons w ws ih =>
    have hw : IsRun p w := hws w List.mem_cons_self
    cases ws with
    | nil => exact runs_of_isRun hw
    | cons v ws =>
      have hjoin : joinWith [sep] (w :: v :: ws) = w ++ sep :: joinWith [sep] (v :: ws) := by
        rw [joinWith, List.append_assoc, List.singleton_append]
        simp
      rw [hjoin, runs_append hw (by simp [hsep]), runs_cons_of_not hsep,
        ih fun u hu => hws u (List.mem_cons_of_mem w hu)]

end Text

end ApiMock
