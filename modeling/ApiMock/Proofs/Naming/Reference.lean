import ApiMock.Naming
import Mathlib.Data.List.Induction
/-!
# Naming — what a pointer ends in

A reference goes by the last segment of its pointer. `LastSegment` says which one that is without
taking the pointer apart: it has no slash in it, only slashes follow it, and it stands behind a
slash unless it is all there is. Every pointer has exactly one (`refName_eq_iff`), which is empty
if the pointer consists of slashes.
-/

namespace ApiMock

namespace Text

variable {sep : Char} {p : Char → Bool} {cs stripped : List Char}

/-- What is stripped off an end is gone. -/
theorem stripEnd_append (h : ∀ c ∈ stripped, p c = true) :
    stripEnd p (cs ++ stripped) = stripEnd p cs := by
  rw [stripEnd, List.reverse_append, List.dropWhile_append_of_pos (by simpa using h), stripEnd]

/-- Nothing is stripped off an end that is to stay. -/
theorem stripEnd_of_getLast? (h : ∀ c, cs.getLast? = some c → p c = false) :
    stripEnd p cs = cs := by
  rw [stripEnd]
  cases hcs : cs.reverse with
  | nil => rw [List.reverse_eq_nil_iff.mp hcs]; rfl
  | cons c rest =>
    have hlast : cs.getLast? = some c := by
      rw [List.getLast?_eq_head?_reverse, hcs, List.head?_cons]
    rw [List.dropWhile_cons_of_neg (by simp [h c hlast]), ← hcs, List.reverse_reverse]

/-- A text is what is left of it and what is stripped off. -/
theorem exists_stripEnd (p : Char → Bool) (cs : List Char) : ∃ stripped,
    cs = stripEnd p cs ++ stripped ∧ (∀ c ∈ stripped, p c = true) ∧
      ∀ c, (stripEnd p cs).getLast? = some c → p c = false := by
  refine ⟨(cs.reverse.takeWhile p).reverse, ?_, fun c hc => ?_, fun c hc => ?_⟩
  · rw [stripEnd, ← List.reverse_append, List.takeWhile_append_dropWhile, List.reverse_reverse]
  · exact List.all_eq_true.mp List.all_takeWhile c (List.mem_reverse.mp hc)
  · rw [stripEnd, List.getLast?_reverse] at hc
    simpa [hc] using List.head?_dropWhile_not p cs.reverse

/-- A separator cuts a text in two. -/
theorem cut_append_cut {before after : List Char} :
    cut sep (before ++ sep :: after) = cut sep before ++ cut sep after := by
  induction before with
  | nil => simp [cut]
  | cons c rest ih =>
    obtain ⟨piece, others, heq⟩ := List.exists_cons_of_ne_nil (cut_ne_nil sep rest)
    rw [List.cons_append, cut, cut, ih, heq]
    split
    · rfl
    · rfl

/-- Of pieces that are joined the last stands at the end. -/
theorem joinWith_concat {last : List Char} {pieces : List (List Char)} :
    joinWith [sep] (pieces ++ [last]) = pieces.flatMap (· ++ [sep]) ++ last := by
  induction pieces with
  | nil => rfl
  | cons piece rest ih =>
    obtain ⟨next, others, heq⟩ := List.exists_cons_of_ne_nil
      (List.append_ne_nil_of_right_ne_nil rest (List.cons_ne_nil last []))
    rw [List.cons_append, heq, joinWith, ← heq, ih, List.flatMap_cons, List.append_assoc,
      List.append_assoc, List.append_assoc]
    simp

end Text

namespace Naming

open Text

variable {pointer name : String}

/-- A name is the last segment of a pointer: it has no slash, it stands behind the last one that
something stands behind, and only slashes follow it. -/
def LastSegment (pointer name : String) : Prop :=
  '/' ∉ name.toList ∧ ∃ before slashes, pointer.toList = before ++ name.toList ++ slashes ∧
    (∀ c ∈ slashes, c = '/') ∧ (before = [] ∨ name ≠ "" ∧ before.getLast? = some '/')

/-- **A reference names the last segment of its pointer**, which every pointer has. -/
theorem refName_eq_iff : refName pointer = name ↔ LastSegment pointer name := by
  constructor
  · rintro rfl
    obtain ⟨slashes, hpointer, hslashes, hend⟩ := exists_stripEnd (· = '/') pointer.toList
    obtain ⟨pieces, last, hcut⟩ : ∃ pieces last,
        cut '/' (stripEnd (· = '/') pointer.toList) = pieces ++ [last] :=
      ⟨_, _, (List.dropLast_concat_getLast (cut_ne_nil _ _)).symm⟩
    have hname : (refName pointer).toList = last := by
      rw [refName, hcut, List.getLast?_concat, Option.getD_some, String.toList_ofList]
    have hstripped : stripEnd (· = '/') pointer.toList = pieces.flatMap (· ++ ['/']) ++ last := by
      rw [← joinWith_concat, ← hcut, joinWith_cut]
    refine ⟨?_, pieces.flatMap (· ++ ['/']), slashes, ?_, by simpa using hslashes, ?_⟩
    · rw [hname]
      exact not_mem_of_mem_cut last (by rw [hcut]; simp)
    · rw [hname, ← hstripped]
      exact hpointer
    · cases pieces using List.reverseRecOn with
      | nil => exact .inl rfl
      | append_singleton front piece =>
        refine .inr ⟨fun hempty => ?_, by simp⟩
        -- what is left of the pointer would end in a slash
        have hlast : last = [] := by rw [← hname, hempty, String.toList_empty]
        rw [hstripped, hlast] at hend
        simp at hend
  · rintro ⟨hwhole, before, slashes, hpointer, hslashes, hbefore⟩
    have hstripped : stripEnd (· = '/') pointer.toList = before ++ name.toList := by
      rw [hpointer, stripEnd_append (by simpa using hslashes)]
      refine stripEnd_of_getLast? fun c hc => decide_eq_false ?_
      rintro rfl
      rcases hbefore with rfl | ⟨hname, -⟩
      · exact hwhole (List.mem_of_getLast? hc)
      · have hne : name.toList ≠ [] := by simpa using hname
        rw [List.getLast?_append, List.getLast?_eq_some_getLast hne, Option.some_or] at hc
        exact hwhole (Option.some.inj hc ▸ List.getLast_mem hne)
    have hlast : (cut '/' (before ++ name.toList)).getLast? = some name.toList := by
      rcases hbefore with rfl | ⟨-, hslash⟩
      · rw [List.nil_append, cut_of_notMem hwhole, List.getLast?_singleton]
      · obtain ⟨front, rfl⟩ := List.getLast?_eq_some_iff.mp hslash
        rw [List.append_assoc, List.singleton_append, cut_append_cut, cut_of_notMem hwhole,
          List.getLast?_concat]
    rw [refName, hstripped, hlast, Option.getD_some, String.ofList_toList]

end Naming

end ApiMock
