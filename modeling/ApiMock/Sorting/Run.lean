/-!
# Sorting — runs

A list is sorted by its runs: stretches that are in order already, or in
the opposite order all the way. A run that is too short is made longer by
putting further elements in.

Nothing here needs the order to be total. An element that stands below
nothing, and nothing below it, ends up at a place that depends on the way
of sorting, so the way is fixed: which two elements are compared, and when.
-/

namespace ApiMock

namespace Sorting

variable {α : Type}

/-! ## Places -/

/-- The place between two bounds up to which something holds, found by
halving. Of two middles the lower one is tried if `rounding` is one. -/
def halve (holds : Nat → Bool) (rounding low high : Nat) : Nat :=
  if low < high then
    let mid := low + (high - low - rounding) / 2
    if holds mid then halve holds rounding (mid + 1) high
    else halve holds rounding low mid
  else low
termination_by high - low

/-- The bounds between which something ceases to hold, found in strides
that double. It holds at `last`. -/
def stride (holds : Nat → Bool) (size last next : Nat) : Nat × Nat :=
  if next < size then
    if holds next then stride holds size next (2 * next + 1) else (last, next)
  else (last, size)
termination_by size - next

/-- The length of a leading stretch of elements of which something holds,
found in strides and then by halving. -/
def leap (holds : α → Bool) (rounding : Nat) (items : List α) : Nat :=
  let holdsAt := fun n => items[n]?.any holds
  if holdsAt 0 then
    let (last, next) := stride holdsAt items.length 0 1
    halve holdsAt rounding (last + 1) next
  else 0

/-! ## Runs -/

/-- The elements behind `last` as long as each one goes on from the one
before it, and the rest. -/
def run (goesOn : α → α → Bool) (last : α) : List α → List α × List α
  | [] => ([], [])
  | a :: rest =>
    if goesOn last a then
      let (taken, others) := run goesOn a rest
      (a :: taken, others)
    else ([], a :: rest)

/-- The leading run of a list in ascending order, and the rest. A run that
goes down all the way is turned round. -/
def leadingRun (below : α → α → Bool) : List α → List α × List α
  | a :: b :: rest =>
    if below b a then
      let (taken, others) := run (fun x y => below y x) b rest
      ((a :: b :: taken).reverse, others)
    else
      let (taken, others) := run (fun x y => !below y x) b rest
      (a :: b :: taken, others)
  | items => (items, [])

/-- Puts an element in behind its equals. -/
def put (below : α → α → Bool) (items : List α) (a : α) : List α :=
  let place := halve (fun n => items[n]?.any fun b => !below a b) 0 0 items.length
  items.take place ++ a :: items.drop place

/-- The leading run of a list, made longer if it has less than `size`
elements, and the rest. -/
def nextRun (below : α → α → Bool) (size : Nat) (items : List α) : List α × List α :=
  let (first, rest) := leadingRun below items
  let missing := size - first.length
  ((rest.take missing).foldl (put below) first, rest.drop missing)

/-! ## Nothing is lost -/

theorem run_append {goesOn : α → α → Bool} {last : α} {items : List α} :
    (run goesOn last items).1 ++ (run goesOn last items).2 = items := by
  induction items generalizing last with
  | nil => rfl
  | cons a rest ih =>
    rw [run]
    split
    · simp [ih]
    · rfl

/-- The leading run and the rest make up the list. -/
theorem leadingRun_perm {below : α → α → Bool} {items : List α} :
    ((leadingRun below items).1 ++ (leadingRun below items).2).Perm items := by
  match items with
  | [] => exact List.Perm.refl _
  | [a] => exact List.Perm.refl _
  | a :: b :: rest =>
    rw [leadingRun]
    split
    · refine ((List.reverse_perm _).append_right _).trans ?_
      simp only [List.cons_append, run_append]
      exact List.Perm.refl _
    · simp only [List.cons_append, run_append]
      exact List.Perm.refl _

theorem put_perm {below : α → α → Bool} {items : List α} {a : α} :
    (put below items a).Perm (a :: items) := by
  rw [put]
  refine List.perm_middle.trans ?_
  rw [List.take_append_drop]

theorem foldl_put_perm {below : α → α → Bool} {items first : List α} :
    (items.foldl (put below) first).Perm (first ++ items) := by
  induction items generalizing first with
  | nil => simp
  | cons a items ih =>
    refine ih.trans ?_
    refine (put_perm.append_right items).trans ?_
    exact List.perm_middle.symm

/-- The next run and the rest make up the list. -/
theorem nextRun_perm {below : α → α → Bool} {size : Nat} {items : List α} :
    ((nextRun below size items).1 ++ (nextRun below size items).2).Perm items := by
  simp only [nextRun]
  refine (foldl_put_perm.append_right _).trans ?_
  rw [List.append_assoc, List.take_append_drop]
  exact leadingRun_perm

end Sorting

end ApiMock
