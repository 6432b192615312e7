import Mathlib.Algebra.GroupWithZero.Nat
import ApiMock.Emit.Lines
import ApiMock.Text.Split
/-!
# Text — pairs of characters

How often one character stands right before another. Of texts in a row the
pairs add up, and one more where they meet. Replacing a pair by something
that starts and ends like it, and does not hold it, leaves none of it.
-/

namespace ApiMock

namespace Text

variable {a b c d : Char} {cs xs ys : List Char}

/-- The number of places where `a` stands right before `b`. -/
def pairCount (a b : Char) (cs : List Char) : Nat :=
  (cs.zip cs.tail).count (a, b)

@[simp] theorem pairCount_nil : pairCount a b [] = 0 := rfl

@[simp] theorem pairCount_singleton : pairCount a b [c] = 0 := rfl

theorem pairCount_cons_cons : pairCount a b (c :: d :: cs) =
    (if c = a ∧ d = b then 1 else 0) + pairCount a b (d :: cs) := by
  rw [pairCount, List.tail_cons, List.zip_cons_cons, List.count_cons, pairCount, List.tail_cons,
    Nat.add_comm]
  simp only [beq_iff_eq, Prod.mk.injEq]

/-- A character in front, beside the one that comes first. -/
theorem pairCount_cons : pairCount a b (c :: cs) =
    (if c = a ∧ cs.head? = some b then 1 else 0) + pairCount a b cs := by
  cases cs with
  | nil => simp
  | cons d cs => simp only [pairCount_cons_cons, List.head?_cons, Option.some_inj]

/-- **Texts in a row** have their own pairs, and one more if it stands where they meet. -/
theorem pairCount_append : pairCount a b (xs ++ ys) = pairCount a b xs + pairCount a b ys +
    (if xs.getLast? = some a ∧ ys.head? = some b then 1 else 0) := by
  induction xs with
  | nil => simp
  | cons c rest ih =>
    cases rest with
    | nil =>
      rw [List.singleton_append, pairCount_singleton, pairCount_cons]
      simp only [List.getLast?_singleton, Option.some_inj]
      omega
    | cons d rest =>
      rw [List.cons_append] at ih ⊢
      rw [List.cons_append, pairCount_cons_cons, ih, pairCount_cons_cons,
        List.getLast?_cons_cons]
      omega

/-- Texts that do not meet in a pair. -/
theorem pairCount_append_of_not (h : ¬ (xs.getLast? = some a ∧ ys.head? = some b)) :
    pairCount a b (xs ++ ys) = pairCount a b xs + pairCount a b ys := by
  rw [pairCount_append, if_neg h, Nat.add_zero]

/-- A pair of other characters than those that are changed stays. -/
theorem pairCount_map {f : Char → Char} (ha : ∀ c ∈ cs, f c = a ↔ c = a)
    (hb : ∀ c ∈ cs, f c = b ↔ c = b) : pairCount a b (cs.map f) = pairCount a b cs := by
  induction cs with
  | nil => rfl
  | cons c rest ih =>
    have hrest := ih (fun d hd => ha d (List.mem_cons_of_mem c hd))
      fun d hd => hb d (List.mem_cons_of_mem c hd)
    have hhead : (rest.map f).head? = some b ↔ rest.head? = some b := by
      cases rest with
      | nil => simp
      | cons d rest =>
        simpa using hb d (List.mem_cons_of_mem c List.mem_cons_self)
    rw [List.map_cons, pairCount_cons, pairCount_cons, hrest]
    simp only [ha c List.mem_cons_self, hhead]

/-! ## Replacing a pair -/

/-- A text still starts with its first character. -/
theorem head?_replacePair {by' : List Char} (hfirst : by'.head? = some a) :
    (replacePair a b by' cs).head? = cs.head? := by
  unfold replacePair
  split
  · split
    · rename_i h
      rw [List.head?_append, hfirst, h.1]
      rfl
    · rfl
  · rfl

/-- **Nothing of a pair is left** that is replaced by something that starts and ends like it and
does not hold it. -/
theorem pairCount_replacePair {by' : List Char} (hne : a ≠ b) (hfirst : by'.head? = some a)
    (hlast : by'.getLast? = some b) (hnone : pairCount a b by' = 0) :
    pairCount a b (replacePair a b by' cs) = 0 := by
  fun_induction replacePair a b by' cs with
  | case1 c d rest h ih =>
    -- what comes behind the replacement meets `b`, which is not `a`
    rw [pairCount_append_of_not, hnone, ih]
    rintro ⟨ha, -⟩
    rw [hlast] at ha
    exact hne (Option.some_inj.mp ha).symm
  | case2 c d rest h ih =>
    simp only [pairCount_cons, head?_replacePair hfirst, ih, List.head?_cons, Option.some_inj,
      if_neg h]
  | case3 cs h =>
    cases cs with
    | nil => rfl
    | cons c rest =>
      cases rest with
      | nil => rfl
      | cons d rest => exact absurd rfl (h c d rest)

/-- No other characters come in than those that a pair is replaced by. -/
theorem mem_replacePair {by' : List Char} (h : c ∈ replacePair a b by' cs) : c ∈ by' ∨ c ∈ cs := by
  fun_induction replacePair a b by' cs with
  | case1 d e rest _ ih =>
    rcases List.mem_append.mp h with h | h
    · exact .inl h
    · exact (ih h).imp_right fun h => List.mem_cons_of_mem d (List.mem_cons_of_mem e h)
  | case2 d e rest _ ih =>
    rcases List.mem_cons.mp h with rfl | h
    · exact .inr List.mem_cons_self
    · exact (ih h).imp_right (List.mem_cons_of_mem d)
  | case3 cs => exact .inr h

end Text

namespace Emit

open Text

variable {a b : Char}

/-- A line has the pairs of its parts if they do not meet in one. -/
theorem pairCount_line {before after : String}
    (h : ¬ (before.toList.getLast? = some a ∧ after.toList.head? = some b)) :
    pairCount a b (before ++ after).toList =
      pairCount a b before.toList + pairCount a b after.toList := by
  rw [String.toList_append, pairCount_append_of_not h]

/-- **Lines have their own pairs**, since no pair goes over the end of a line. -/
theorem pairCount_unlines (ha : a ≠ '\n') (hb : b ≠ '\n') (lines : List String) :
    pairCount a b (unlines lines).toList =
      (lines.map fun line => pairCount a b line.toList).sum := by
  induction lines with
  | nil => rfl
  | cons line rest ih =>
    have hend : ¬ ((line ++ "\n").toList.getLast? = some a ∧
        (unlines rest).toList.head? = some b) := by
      rw [String.toList_append]
      rintro ⟨h, -⟩
      simp at h
      exact ha h.symm
    have hfeed : ¬ (line.toList.getLast? = some a ∧ "\n".toList.head? = some b) := by
      rintro ⟨-, h⟩
      exact hb (Option.some_inj.mp h).symm
    rw [unlines_cons, pairCount_line hend, pairCount_line hfeed, ih, List.map_cons, List.sum_cons]
    rfl

end Emit

end ApiMock
