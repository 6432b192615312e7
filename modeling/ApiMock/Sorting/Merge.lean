import ApiMock.Sorting.Run
/-!
# Sorting — merging two runs

Two runs become one. The elements that stay in front or behind anyway are
left where they are; of the others the run with more elements is the long
one, and the merge starts at the end where the long run gives first. It
goes step by step until one of the runs has given many elements in a row,
and then in leaps for as long as these are long enough.

How many in a row are many is the patience. It falls with every round of
leaps that pays and grows with one that does not, and outlasts the merge.
-/

namespace ApiMock

namespace Sorting

variable {α : Type}

/-- Two runs on their way into one. -/
structure Merging (α : Type) where
  /-- What both runs have given, the last element first. -/
  merged : List α
  short : List α
  long : List α
  patience : Nat

/-- How two runs are merged: from the front, or from behind with all
lists turned round. -/
structure Way (α : Type) where
  /-- An element of the long run comes before one of the short run. -/
  longFirst : α → α → Bool
  isBackward : Bool

/-- How halving rounds on a way, seen in its direction. -/
def Way.rounding (w : Way α) : Nat := if w.isBackward then 1 else 0

/-- The least leap that pays. -/
def leastLeap : Nat := 7

namespace Merging

/-- The short run gives `n` elements. -/
def giveShort (n : Nat) (m : Merging α) : Merging α :=
  { m with merged := (m.short.take n).reverse ++ m.merged, short := m.short.drop n }

/-- The long run gives `n` elements. -/
def giveLong (n : Nat) (m : Merging α) : Merging α :=
  { m with merged := (m.long.take n).reverse ++ m.merged, long := m.long.drop n }

/-- Nothing is left to compare: the long run is empty, or of the short one
at most the last element is left, which comes last. -/
def isDone (m : Merging α) : Bool :=
  match m.short, m.long with
  | _ :: _ :: _, _ :: _ => false
  | _, _ => true

/-- The next element comes from the long run. -/
def isLongNext (w : Way α) (m : Merging α) : Bool :=
  match m.short, m.long with
  | x :: _, y :: _ => w.longFirst y x
  | _, _ => false

/-- The elements that the short run can give before the long one must. -/
def shortLeap (w : Way α) (m : Merging α) : Nat :=
  match m.long with
  | y :: _ => leap (fun x => !w.longFirst y x) w.rounding m.short
  | [] => 0

/-- The elements that the long run can give before the short one must. -/
def longLeap (w : Way α) (m : Merging α) : Nat :=
  match m.short with
  | x :: _ => leap (fun y => w.longFirst y x) w.rounding m.long
  | [] => 0

/-- A leap of the short run and the element of the long run behind it. The
length of the leap is noted beside the one before it. -/
def leapShort (w : Way α) (longest : Nat) (m : Merging α) : Nat × Merging α :=
  if m.isDone then (longest, m)
  else
    let n := m.shortLeap w
    let m := m.giveShort n
    (max longest n, if m.isDone then m else m.giveLong 1)

/-- A leap of the long run and the element of the short run behind it. The
length of the leap is noted beside the one before it. -/
def leapLong (w : Way α) (longest : Nat) (m : Merging α) : Nat × Merging α :=
  if m.isDone then (longest, m)
  else
    let n := m.longLeap w
    let m := m.giveLong n
    (max longest n, if m.isDone then m else m.giveShort 1)

/-- A leap of either run, that of the run which lay in front first, and
the length of the longer one. -/
def leapBoth (w : Way α) (m : Merging α) : Nat × Merging α :=
  if w.isBackward then
    let (n, m) := m.leapLong w 0
    m.leapShort w n
  else
    let (n, m) := m.leapShort w 0
    m.leapLong w n

/-- The patience of a round of leaps, less if it follows another one. -/
def eased (again : Bool) (m : Merging α) : Merging α :=
  if again && m.patience > 1 then { m with patience := m.patience - 1 } else m

/-- The patience after leaps that did not pay. -/
def strained (m : Merging α) : Merging α :=
  { m with patience := m.patience + 1 }

/-- The merged run, in the direction of the merge. -/
def result (m : Merging α) : List α :=
  m.merged.reverse ++ m.long ++ m.short

end Merging

/-- How a merge goes on. -/
inductive Pace where
  /-- Step by step, after so many elements in a row from either run. -/
  | steps (short long : Nat)
  /-- In leaps, for the first time or again. -/
  | leaps (again : Bool)

namespace Merging

/-- A step of a merge, and how it goes on. -/
def step (w : Way α) (short long : Nat) (m : Merging α) : Pace × Merging α :=
  if m.isLongNext w then
    (if long + 1 < m.patience then .steps 0 (long + 1) else .leaps false, m.giveLong 1)
  else
    (if short + 1 < m.patience then .steps (short + 1) 0 else .leaps false, m.giveShort 1)

/-- A round of leaps, and how the merge goes on. -/
def round (w : Way α) (again : Bool) (m : Merging α) : Pace × Merging α :=
  let (n, m) := (m.eased again).leapBoth w
  if m.isDone || leastLeap ≤ n then (.leaps true, m) else (.steps 0 0, m.strained)

/-- A turn of a merge, and how it goes on. -/
def turn (w : Way α) (pace : Pace) (m : Merging α) : Pace × Merging α :=
  match pace with
  | .steps short long => m.step w short long
  | .leaps again => m.round w again

/-- Goes on with a merge. Every turn takes an element from one of the runs. -/
def advance (w : Way α) : Nat → Pace → Merging α → Merging α
  | 0, _, m => m
  | turns + 1, pace, m =>
    if m.isDone then m
    else
      let (pace, m) := m.turn w pace
      advance w turns pace m

end Merging

/-- Merges two runs on a way; the long run gives first. -/
def mergeOn (w : Way α) (patience : Nat) (short long : List α) : List α × Nat :=
  let m := Merging.giveLong 1 ⟨[], short, long, patience⟩
  let m := m.advance w (short.length + long.length) (.steps 0 0)
  (m.result, m.patience)

/-- Merges the part of two neighbouring runs that is not in place. -/
def mergeInner (below : α → α → Bool) (patience : Nat) (a b : List α) : List α × Nat :=
  if a.length ≤ b.length then mergeOn ⟨below, false⟩ patience a b
  else
    let (merged, patience) := mergeOn ⟨fun y x => below x y, true⟩ patience b.reverse a.reverse
    (merged.reverse, patience)

/-- The elements of a run that come before all of the run behind it. -/
def inFront (below : α → α → Bool) (a b : List α) : Nat :=
  match b with
  | y :: _ => leap (fun x => !below y x) 0 a
  | [] => a.length

/-- The elements of a run that come behind all of the run before it. -/
def behind (below : α → α → Bool) (a b : List α) : Nat :=
  match a.getLast? with
  | some x => leap (fun y => !below y x) 1 b.reverse
  | none => b.length

/-- Merges two neighbouring runs. -/
def mergeRuns (below : α → α → Bool) (patience : Nat) (a b : List α) : List α × Nat :=
  let front := inFront below a b
  let inner := a.drop front
  let size := b.length - behind below inner b
  if inner.isEmpty || size = 0 then (a ++ b, patience)
  else
    let (merged, patience) := mergeInner below patience inner (b.take size)
    (a.take front ++ merged ++ b.drop size, patience)

/-! ## Nothing is lost -/

namespace Merging

/-- All elements of a merge. -/
def elements (m : Merging α) : List α :=
  m.merged ++ (m.short ++ m.long)

theorem giveShort_perm {n : Nat} {m : Merging α} : (m.giveShort n).elements.Perm m.elements := by
  simp only [giveShort, elements, List.append_assoc]
  refine ((List.reverse_perm _).append_right _).trans ?_
  refine List.perm_append_comm_assoc _ _ _ |>.trans ?_
  rw [← List.append_assoc (m.short.take n), List.take_append_drop]

theorem giveLong_perm {n : Nat} {m : Merging α} : (m.giveLong n).elements.Perm m.elements := by
  simp only [giveLong, elements, List.append_assoc]
  refine ((List.reverse_perm _).append_right _).trans ?_
  refine List.perm_append_comm_assoc _ _ _ |>.trans (List.Perm.append_left _ ?_)
  refine List.perm_append_comm_assoc _ _ _ |>.trans ?_
  rw [List.take_append_drop]

theorem leapShort_perm {w : Way α} {n : Nat} {m : Merging α} :
    (m.leapShort w n).2.elements.Perm m.elements := by
  rw [leapShort]
  split
  · exact List.Perm.refl _
  · dsimp only
    split
    · exact giveShort_perm
    · exact giveLong_perm.trans giveShort_perm

theorem leapLong_perm {w : Way α} {n : Nat} {m : Merging α} :
    (m.leapLong w n).2.elements.Perm m.elements := by
  rw [leapLong]
  split
  · exact List.Perm.refl _
  · dsimp only
    split
    · exact giveLong_perm
    · exact giveShort_perm.trans giveLong_perm

theorem leapBoth_perm {w : Way α} {m : Merging α} :
    (m.leapBoth w).2.elements.Perm m.elements := by
  rw [leapBoth]
  split
  · exact leapShort_perm.trans leapLong_perm
  · exact leapLong_perm.trans leapShort_perm

theorem elements_eased {again : Bool} {m : Merging α} : (m.eased again).elements = m.elements := by
  rw [eased]
  split <;> rfl

theorem step_perm {w : Way α} {short long : Nat} {m : Merging α} :
    (m.step w short long).2.elements.Perm m.elements := by
  rw [step]
  split
  · exact giveLong_perm
  · exact giveShort_perm

theorem round_perm {w : Way α} {again : Bool} {m : Merging α} :
    (m.round w again).2.elements.Perm m.elements := by
  have h : ((m.eased again).leapBoth w).2.elements.Perm m.elements :=
    leapBoth_perm.trans (by rw [elements_eased])
  rw [round]
  dsimp only
  split
  · exact h
  · exact h

theorem turn_perm {w : Way α} {pace : Pace} {m : Merging α} :
    (m.turn w pace).2.elements.Perm m.elements := by
  cases pace with
  | steps short long => exact step_perm
  | leaps again => exact round_perm

/-- Going on with a merge keeps all elements. -/
theorem advance_perm {w : Way α} {turns : Nat} {pace : Pace} {m : Merging α} :
    (m.advance w turns pace).elements.Perm m.elements := by
  induction turns generalizing pace m with
  | zero => exact List.Perm.refl _
  | succ turns ih =>
    rw [advance]
    split
    · exact List.Perm.refl _
    · exact ih.trans turn_perm

theorem result_perm {m : Merging α} : m.result.Perm m.elements := by
  rw [result, elements, List.append_assoc]
  exact (List.reverse_perm _).append List.perm_append_comm

end Merging

theorem mergeOn_perm {w : Way α} {patience : Nat} {short long : List α} :
    (mergeOn w patience short long).1.Perm (short ++ long) :=
  Merging.result_perm.trans (Merging.advance_perm.trans Merging.giveLong_perm)

theorem mergeInner_perm {below : α → α → Bool} {patience : Nat} {a b : List α} :
    (mergeInner below patience a b).1.Perm (a ++ b) := by
  rw [mergeInner]
  split
  · exact mergeOn_perm
  · refine (List.reverse_perm _).trans (mergeOn_perm.trans ?_)
    rw [← List.reverse_append]
    exact List.reverse_perm _

/-- Merging two runs keeps all elements. -/
theorem mergeRuns_perm {below : α → α → Bool} {patience : Nat} {a b : List α} :
    (mergeRuns below patience a b).1.Perm (a ++ b) := by
  rw [mergeRuns]
  dsimp only
  split
  · exact List.Perm.refl _
  · refine ((mergeInner_perm.append_left _).append_right _).trans ?_
    rw [← List.append_assoc, List.take_append_drop, List.append_assoc, List.take_append_drop]

end Sorting

end ApiMock
