import ApiMock.Sorting.Merge
/-!
# Sorting — the pile of runs

The runs of a list are piled up and merged with their neighbours, so that
in the end one is left. Between two neighbours lies a seam. Halving the
whole list again and again gives a tree, and a seam is as deep as the cut
that parts the middles of its runs. Before a run is piled up, all seams
that lie deeper than its own are closed.
-/

namespace ApiMock

namespace Sorting

variable {α : Type}

/-- The runs found so far, the last one apart. Every other one has the
depth of the seam behind it. -/
structure Pile (α : Type) where
  top : List α
  older : List (Nat × List α)
  patience : Nat

/-- The depth of the seam between two runs by their doubled middles: how
often `total` is halved until a cut lies between them. -/
def seamDepth (total : Nat) : Nat → Nat → Nat → Nat
  | 0, _, _ => 0
  | turns + 1, a, b =>
    if total ≤ a then seamDepth total turns (2 * (a - total)) (2 * (b - total)) + 1
    else if total ≤ b then 1
    else seamDepth total turns (2 * a) (2 * b) + 1

/-- The least length of a run in a list of so many elements: the six
leading digits of their number in base two, and one more if any other
digit is not zero. -/
def leastRun (size carry : Nat) : Nat :=
  if size < 64 then size + carry else leastRun (size / 2) (max carry (size % 2))
termination_by size

namespace Pile

/-- Closes the seams that lie deeper than the next one. -/
def close (below : α → α → Bool) (depth : Nat) (top : List α) (patience : Nat) :
    List (Nat × List α) → Pile α
  | [] => ⟨top, [], patience⟩
  | (d, run) :: rest =>
    if depth < d then
      let (top, patience) := mergeRuns below patience run top
      close below depth top patience rest
    else ⟨top, (d, run) :: rest, patience⟩

/-- Piles a run up that ends after `count` of all elements. -/
def add (below : α → α → Bool) (total count : Nat) (p : Pile α) (run : List α) : Pile α :=
  let b := 2 * count - run.length
  let a := b - run.length - p.top.length
  let depth := seamDepth total (total + 1) a b
  let p := close below depth p.top p.patience p.older
  { p with top := run, older := (depth, p.top) :: p.older }

/-- Closes all seams. The middle one of three runs goes to the smaller
one of its neighbours. -/
def closeAll (below : α → α → Bool) (patience : Nat) (top : List α) : List (List α) → List α
  | [] => top
  | [a] => (mergeRuns below patience a top).1
  | b :: a :: rest =>
    if a.length < top.length then
      let (merged, patience) := mergeRuns below patience a b
      closeAll below patience top (merged :: rest)
    else
      let (top, patience) := mergeRuns below patience b top
      closeAll below patience top (a :: rest)
termination_by runs => runs.length

/-- Piles the runs of a list up, of which `count` elements are piled up
already. -/
def addAll (below : α → α → Bool) (least total : Nat) : Nat → Nat → Pile α → List α → Pile α
  | 0, _, p, items => { p with top := p.top ++ items }
  | _ + 1, _, p, [] => p
  | turns + 1, count, p, a :: items =>
    let (run, rest) := nextRun below least (a :: items)
    let count := count + run.length
    addAll below least total turns count (p.add below total count run) rest

end Pile

/-- A list in ascending order. -/
def sort (below : α → α → Bool) (items : List α) : List α :=
  let total := items.length
  let least := leastRun total 0
  let (run, rest) := nextRun below least items
  let p := Pile.addAll below least total total run.length ⟨run, [], leastLeap⟩ rest
  Pile.closeAll below p.patience p.top (p.older.map Prod.snd)

/-! ## Nothing is lost -/

namespace Pile

/-- All elements of a pile. -/
def elements (p : Pile α) : List α :=
  p.top ++ (p.older.map Prod.snd).flatten

theorem close_perm {below : α → α → Bool} {depth patience : Nat} {top : List α}
    {older : List (Nat × List α)} :
    (close below depth top patience older).elements.Perm
      (top ++ (older.map Prod.snd).flatten) := by
  induction older generalizing top patience with
  | nil => exact List.Perm.refl _
  | cons r rest ih =>
    obtain ⟨d, run⟩ := r
    rw [close]
    split
    · refine ih.trans ?_
      refine (mergeRuns_perm.append_right _).trans ?_
      rw [List.map_cons, List.flatten_cons, ← List.append_assoc]
      exact List.perm_append_comm.append_right _
    · exact List.Perm.refl _

theorem add_perm {below : α → α → Bool} {total count : Nat} {p : Pile α} {run : List α} :
    (p.add below total count run).elements.Perm (p.elements ++ run) := by
  rw [add, elements, List.map_cons, List.flatten_cons]
  exact (close_perm.append_left run).trans List.perm_append_comm

theorem addAll_perm {below : α → α → Bool} {least total turns count : Nat} {p : Pile α}
    {items : List α} :
    (addAll below least total turns count p items).elements.Perm (p.elements ++ items) := by
  induction turns generalizing count p items with
  | zero =>
    rw [addAll, elements, elements, List.append_assoc, List.append_assoc]
    exact List.perm_append_comm.append_left _
  | succ turns ih =>
    cases items with
    | nil => simp [addAll]
    | cons a items =>
      rw [addAll]
      refine ih.trans ?_
      refine (add_perm.append_right _).trans ?_
      rw [List.append_assoc]
      exact nextRun_perm.append_left _

theorem closeAll_perm {below : α → α → Bool} {patience : Nat} {top : List α}
    {runs : List (List α)} :
    (closeAll below patience top runs).Perm (top ++ runs.flatten) := by
  fun_induction closeAll below patience top runs with
  | case1 => simp
  | case2 patience top a =>
    rw [List.flatten_singleton]
    exact mergeRuns_perm.trans List.perm_append_comm
  | case3 patience top b a rest _ merged _ h ih =>
    refine ih.trans (List.Perm.append_left _ ?_)
    have hm := @mergeRuns_perm α below patience a b
    rw [h] at hm
    rw [List.flatten_cons, List.flatten_cons, List.flatten_cons, ← List.append_assoc]
    exact (hm.trans List.perm_append_comm).append_right _
  | case4 patience top b a rest _ merged _ h ih =>
    refine ih.trans ?_
    have hm := @mergeRuns_perm α below patience b top
    rw [h] at hm
    refine ((hm.trans List.perm_append_comm).append_right _).trans ?_
    simp [List.append_assoc]

end Pile

/-- Sorting keeps all elements. -/
theorem sort_perm {below : α → α → Bool} {items : List α} : (sort below items).Perm items := by
  rw [sort]
  refine Pile.closeAll_perm.trans (Pile.addAll_perm.trans ?_)
  simp only [Pile.elements, List.map_nil, List.flatten_nil, List.append_nil]
  exact nextRun_perm

end Sorting

end ApiMock
