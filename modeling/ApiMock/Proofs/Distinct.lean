import Mathlib.Data.List.Induction
import Mathlib.Data.List.Nodup
import Mathlib.Data.List.Perm.Subperm
/-!
# Distinct — first occurrences

The elements of a list, each once, in the order in which they first occur.
What is appended adds what is new in it and nothing else.
-/

namespace ApiMock

namespace Distinct

variable {α β : Type} [BEq α] [LawfulBEq α] {xs ys : List α} {a : α}

theorem removeAll_eq_nil (h : ∀ y ∈ ys, y ∈ xs) : ys.removeAll xs = [] := by
  rw [List.removeAll, List.filter_eq_nil_iff]
  intro y hy
  simpa using h y hy

theorem removeAll_eq_self (h : ∀ y ∈ ys, y ∉ xs) : ys.removeAll xs = ys := by
  rw [List.removeAll, List.filter_eq_self]
  intro y hy
  simpa using h y hy

/-- What occurs already adds nothing. -/
theorem eraseDups_append_of_subset (h : ∀ y ∈ ys, y ∈ xs) :
    (xs ++ ys).eraseDups = xs.eraseDups := by
  rw [List.eraseDups_append, removeAll_eq_nil h, List.eraseDups_nil, List.append_nil]

/-- Nor does it if something comes after it. -/
theorem eraseDups_append_append_of_subset {zs : List α} (h : ∀ y ∈ ys, y ∈ xs) :
    (xs ++ ys ++ zs).eraseDups = (xs ++ zs).eraseDups := by
  have hsame : zs.removeAll (xs ++ ys) = zs.removeAll xs := by
    rw [List.removeAll, List.removeAll]
    refine List.filter_congr fun z _ => ?_
    have hiff : z ∈ xs ++ ys ↔ z ∈ xs := by
      rw [List.mem_append]
      exact ⟨fun hz => hz.elim id (h z), .inl⟩
    simp only [List.elem_eq_mem, hiff]
  rw [List.eraseDups_append, hsame, eraseDups_append_of_subset h, List.eraseDups_append]

theorem eraseDups_concat_of_notMem (h : a ∉ xs) : (xs ++ [a]).eraseDups = xs.eraseDups ++ [a] := by
  rw [List.eraseDups_append, removeAll_eq_self (by simpa using h)]
  simp [List.eraseDups_cons]

/-- **Each element occurs once.** -/
theorem nodup_eraseDups (xs : List α) : xs.eraseDups.Nodup := by
  induction xs using List.reverseRecOn with
  | nil => simp
  | append_singleton xs a ih =>
    by_cases h : a ∈ xs
    · rwa [eraseDups_append_of_subset (by simpa using h)]
    · rw [eraseDups_concat_of_notMem h]
      refine List.nodup_append.mpr ⟨ih, by simp, ?_⟩
      rintro x hx _ (_ | ⟨_, ⟨⟩⟩) rfl
      exact h (List.mem_eraseDups.mp hx)

/-- A list without repetitions is as it is. -/
theorem eraseDups_of_nodup (h : xs.Nodup) : xs.eraseDups = xs := by
  induction xs using List.reverseRecOn with
  | nil => simp
  | append_singleton xs a ih =>
    obtain ⟨hxs, -, hdisjoint⟩ := List.nodup_append.mp h
    have ha : a ∉ xs := fun hin => hdisjoint a hin a List.mem_cons_self rfl
    rw [eraseDups_concat_of_notMem ha, ih hxs]

/-- What is new and without repetitions is added as it is. -/
theorem eraseDups_append_of_disjoint (hnew : ∀ y ∈ ys, y ∉ xs) (hys : ys.Nodup) :
    (xs ++ ys).eraseDups = xs.eraseDups ++ ys := by
  rw [List.eraseDups_append, removeAll_eq_self hnew, eraseDups_of_nodup hys]

/-- What comes in front of a list matters only by its own first occurrences. -/
theorem eraseDups_append_congr {zs : List α} (h : xs.eraseDups = ys.eraseDups) :
    (xs ++ zs).eraseDups = (ys ++ zs).eraseDups := by
  have hmem : ∀ z, z ∈ xs ↔ z ∈ ys := fun z => by
    rw [← List.mem_eraseDups, h, List.mem_eraseDups]
  have hsame : zs.removeAll xs = zs.removeAll ys := by
    rw [List.removeAll, List.removeAll]
    refine List.filter_congr fun z _ => ?_
    rw [List.elem_eq_mem, List.elem_eq_mem, decide_eq_decide.mpr (hmem z)]
  rw [List.eraseDups_append, List.eraseDups_append, h, hsame]

/-- And what comes behind it. -/
theorem eraseDups_append_eraseDups : (xs ++ ys.eraseDups).eraseDups = (xs ++ ys).eraseDups := by
  induction ys using List.reverseRecOn with
  | nil => rw [List.eraseDups_nil]
  | append_singleton ys y ih =>
    by_cases hy : y ∈ ys
    · have hlast : (xs ++ ys ++ [y]).eraseDups = (xs ++ ys).eraseDups :=
        eraseDups_append_of_subset (by simpa using .inr hy)
      have hsame : (ys ++ [y]).eraseDups = ys.eraseDups :=
        eraseDups_append_of_subset (by simpa using hy)
      rw [← List.append_assoc, hlast, ← ih, hsame]
    · rw [eraseDups_concat_of_notMem hy, ← List.append_assoc, ← List.append_assoc]
      exact eraseDups_append_congr ih

/-- And what comes behind one. -/
theorem eraseDups_append_congr_right {zs : List α} (h : ys.eraseDups = zs.eraseDups) :
    (xs ++ ys).eraseDups = (xs ++ zs).eraseDups := by
  rw [← eraseDups_append_eraseDups, h, eraseDups_append_eraseDups]

/-- Of the elements before the last one, the last to come up first is that
one: it is new, or nothing is new behind its first occurrence. -/
theorem getLast?_eraseDups_concat : (xs ++ [a]).eraseDups.getLast? = some a ↔
    ∀ before after, xs = before ++ a :: after → a ∉ before → ∀ x ∈ after, x = a ∨ x ∈ before := by
  -- what is new behind the first occurrence stands last
  have hsplit : ∀ before after, xs = before ++ a :: after → a ∉ before →
      ((xs ++ [a]).eraseDups.getLast? = some a ↔ ∀ x ∈ after, x = a ∨ x ∈ before) := by
    intro before after hxs hbefore
    have hin : a ∈ xs := by simp [hxs]
    have hall : (xs ++ [a]).eraseDups =
        before.eraseDups ++ [a] ++ (after.removeAll (before ++ [a])).eraseDups := by
      rw [eraseDups_append_of_subset (by simpa using hin), hxs, List.append_cons,
        List.eraseDups_append, eraseDups_concat_of_notMem hbefore]
    have hmem : ∀ x, x ∈ after.removeAll (before ++ [a]) ↔ x ∈ after ∧ ¬ (x = a ∨ x ∈ before) := by
      intro x
      simp [List.removeAll, and_comm]
    rw [hall, List.getLast?_append]
    cases hlast : (after.removeAll (before ++ [a])).eraseDups.getLast? with
    | none =>
      have hnil : after.removeAll (before ++ [a]) = [] := by
        rw [List.getLast?_eq_none_iff] at hlast
        refine List.eq_nil_iff_forall_not_mem.mpr fun x hx => ?_
        exact List.ne_nil_of_mem (List.mem_eraseDups.mpr hx) hlast
      refine iff_of_true (by simp) fun x hx => ?_
      by_contra hnew
      exact List.ne_nil_of_mem ((hmem x).mpr ⟨hx, hnew⟩) hnil
    | some z =>
      obtain ⟨hz, hnew⟩ := (hmem z).mp (List.mem_eraseDups.mp (List.mem_of_getLast? hlast))
      rw [Option.some_or, Option.some_inj]
      exact iff_of_false (fun heq => hnew (.inl heq)) fun hold => hnew (hold z hz)
  constructor
  · intro h before after hxs hbefore
    exact (hsplit before after hxs hbefore).mp h
  · intro h
    by_cases hin : a ∈ xs
    · obtain ⟨before, after, hxs, hbefore⟩ := List.eq_append_cons_of_mem hin
      exact (hsplit before after hxs hbefore).mpr (h before after hxs hbefore)
    · rw [eraseDups_concat_of_notMem hin]
      simp

/-- Lists that have nothing in common are put together for each element
once. -/
theorem eraseDups_flatMap [BEq β] [LawfulBEq β] {f : α → List β} (hf : ∀ a, (f a).Nodup)
    (hdisjoint : ∀ a b, ∀ y ∈ f a, y ∈ f b → a = b) (xs : List α) :
    (xs.flatMap f).eraseDups = xs.eraseDups.flatMap f := by
  induction xs using List.reverseRecOn with
  | nil => simp
  | append_singleton xs a ih =>
    rw [List.flatMap_append, List.flatMap_singleton]
    by_cases h : a ∈ xs
    · have ha : (xs ++ [a]).eraseDups = xs.eraseDups :=
        eraseDups_append_of_subset (by simpa using h)
      rw [ha, ← ih]
      exact eraseDups_append_of_subset fun y hy => List.mem_flatMap.mpr ⟨a, h, hy⟩
    · rw [eraseDups_concat_of_notMem h, List.flatMap_append, List.flatMap_singleton, ← ih]
      refine eraseDups_append_of_disjoint (fun y hy hin => h ?_) (hf a)
      obtain ⟨b, hb, hyb⟩ := List.mem_flatMap.mp hin
      rwa [hdisjoint a b y hy hyb]

/-- There are as many distinct elements as elements exactly in a list
without repetitions. -/
theorem length_eraseDups_eq_iff : xs.eraseDups.length = xs.length ↔ xs.Nodup := by
  constructor
  · intro h
    have hsub : xs.eraseDups ⊆ xs := fun x hx => List.mem_eraseDups.mp hx
    have hperm : xs.eraseDups.Perm xs :=
      ((nodup_eraseDups xs).subperm hsub).perm_of_length_le (Nat.le_of_eq h.symm)
    exact hperm.nodup_iff.mp (nodup_eraseDups xs)
  · intro h
    rw [eraseDups_of_nodup h]

omit [BEq α] [LawfulBEq α] in
/-- What is sorted by keys into a part for each key is all there, whatever
order the keys are in. -/
theorem flatMap_filter_perm [BEq β] [LawfulBEq β] {f : α → β} {ks : List β} (hks : ks.Nodup)
    (h : ∀ x ∈ xs, f x ∈ ks) : (ks.flatMap fun k => xs.filter (f · == k)).Perm xs := by
  induction ks generalizing xs with
  | nil =>
    cases xs with
    | nil => exact .nil
    | cons x rest => exact absurd (h x List.mem_cons_self) List.not_mem_nil
  | cons k rest ih =>
    obtain ⟨hk, hrest⟩ := List.nodup_cons.mp hks
    -- the parts of the other keys are those of what has another key
    have hothers : (rest.flatMap fun j => xs.filter (f · == j)) =
        rest.flatMap fun j => (xs.filter fun x => !(f x == k)).filter (f · == j) := by
      rw [List.flatMap_def, List.flatMap_def]
      refine congrArg List.flatten (List.map_congr_left fun j hj => ?_)
      rw [List.filter_filter]
      refine List.filter_congr fun x _ => ?_
      by_cases hx : f x = j
      · have hne : ¬ j = k := fun e => hk (e ▸ hj)
        simp [hx, hne]
      · simp [hx]
    have hperm : (rest.flatMap fun j =>
        (xs.filter fun x => !(f x == k)).filter (f · == j)).Perm
        (xs.filter fun x => !(f x == k)) := ih hrest fun x hx => by
      obtain ⟨hin, hne⟩ := List.mem_filter.mp hx
      rcases List.mem_cons.mp (h x hin) with he | he
      · simp [he] at hne
      · exact he
    rw [List.flatMap_cons, hothers]
    exact (List.Perm.append_left _ hperm).trans (List.filter_append_perm _ xs)

/-! ## Counting -/

omit [BEq α] [LawfulBEq α] in
/-- What lists without repetitions hold twice, two of them hold. -/
theorem two_of_count_flatMap [BEq β] [LawfulBEq β] {f : α → List β} {y : β} (hf : ∀ x, (f x).Nodup) (h : 2 ≤ (xs.flatMap f).count y) :
    ∃ before x between other after,
      xs = before ++ x :: between ++ other :: after ∧ y ∈ f x ∧ y ∈ f other := by
  induction xs with
  | nil => simp at h
  | cons x rest ih =>
    rw [List.flatMap_cons, List.count_append] at h
    by_cases hx : y ∈ f x
    · -- `x` is the first of the two, and the other one comes behind it
      have hone : (f x).count y = 1 := List.count_eq_one_of_mem (hf x) hx
      have hrest : y ∈ rest.flatMap f := List.count_pos_iff.mp (by omega)
      obtain ⟨other, hother, hy⟩ := List.mem_flatMap.mp hrest
      obtain ⟨between, after, rfl⟩ := List.append_of_mem hother
      exact ⟨[], x, between, other, after, rfl, hx, hy⟩
    · have hnone : (f x).count y = 0 := List.count_eq_zero.mpr hx
      obtain ⟨before, z, between, other, after, rfl, hz, hother⟩ := ih (by omega)
      exact ⟨x :: before, z, between, other, after, rfl, hz, hother⟩

/-- What three lists hold twice, the first two without repetitions: two of
them hold it, or the third holds it twice. -/
theorem of_count_append {as bs cs : List α} (has : as.Nodup) (hbs : bs.Nodup)
    (h : 2 ≤ (as ++ bs ++ cs).count a) :
    (a ∈ as ∧ a ∈ bs) ∨ (a ∈ as ∧ a ∈ cs) ∨ (a ∈ bs ∧ a ∈ cs) ∨ 2 ≤ cs.count a := by
  rw [List.count_append, List.count_append] at h
  have ha : as.count a ≤ 1 := List.nodup_iff_count_le_one.mp has a
  have hb : bs.count a ≤ 1 := List.nodup_iff_count_le_one.mp hbs a
  simp only [← List.count_pos_iff]
  omega

end Distinct

end ApiMock
