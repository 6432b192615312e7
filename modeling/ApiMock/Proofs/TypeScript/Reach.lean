import ApiMock.Proofs.TypeScript.Memo
/-!
# TypeScript — what a resolution expands

A definition is reachable from a node if a chain of references leads to
it. Resolving a node without anything expanded yet expands exactly the
reachable definitions.

A reference can be cut short, because its definition is kept already or is
being expanded. So a memo is closed up to what is being expanded: whatever
a kept definition refers to is kept as well or is being expanded. A walk
preserves this, and at its end nothing is being expanded.
-/

namespace ApiMock

namespace TypeScript

open Entries

variable {defs : Definitions} {seen : List String} {ds : List Demand} {node : Schema}
  {made : List (String × Resolution)} {p q : Pass} {o : Except Failure Unit}

/-- The definition `target` is referred to inside the node. -/
def RefersTo (defs : Definitions) (node : Schema) (target : String) : Prop :=
  node.Mentions target ∧ target ∈ keys defs

/-- The definition `later` is referred to inside that of `earlier`. -/
def Leads (defs : Definitions) (earlier later : String) : Prop :=
  ∃ definition, defs.lookup earlier = some definition ∧ RefersTo defs definition later

/-- The least set with the definitions that the node refers to, and with
those that its members lead to. -/
inductive Reachable (defs : Definitions) (node : Schema) : String → Prop where
  | start {target : String} (h : RefersTo defs node target) : Reachable defs node target
  | step {earlier later : String} (hr : Reachable defs node earlier)
      (h : Leads defs earlier later) : Reachable defs node later

/-- Whatever a kept definition leads to is kept or is being expanded. -/
def ClosedUpTo (defs : Definitions) (seen : List String)
    (expansions : List (String × Resolution)) : Prop :=
  ∀ k ∈ keys expansions, ∀ t, Leads defs k t → t ∈ keys expansions ∨ t ∈ seen

/-- A demand for a definition is met: it is kept or is being expanded. -/
def Met (defs : Definitions) (seen : List String) (ds : List Demand)
    (expansions : List (String × Resolution)) : Prop :=
  ∀ t, .follow t ∈ ds → t ∈ keys defs → t ∈ keys expansions ∨ t ∈ seen

/-! ## Nothing reachable is missed -/

/-- Kept entries stay. -/
theorem Walk.mem_keys (h : Walk defs seen ds p made o q) {k : String}
    (hk : k ∈ keys p.expansions) : k ∈ keys q.expansions := by
  rw [h.grown.kept, mem_keys_append]
  exact .inl hk

/-- Demands are met if the first and the others are. -/
theorem Met.cons {d : Demand} {expansions : List (String × Resolution)}
    (hd : ∀ t, d = .follow t → t ∈ keys defs → t ∈ keys expansions ∨ t ∈ seen)
    (h : Met defs seen ds expansions) : Met defs seen (d :: ds) expansions := by
  intro t ht hdef
  rcases List.mem_cons.mp ht with rfl | ht
  · exact hd t rfl hdef
  · exact h t ht hdef

/-- **A walk that succeeds meets its demands.** -/
theorem Walk.met (h : Walk defs seen ds p made (.ok ()) q) : Met defs seen ds q.expansions := by
  generalize hok : (Except.ok () : Except Failure Unit) = o at h
  induction h with
  | done => exact fun t ht => absurd ht List.not_mem_nil
  | unprintable | failed => cases hok
  | printed _ _ ih =>
    refine .cons (fun t ht => ?_) (ih hok)
    cases ht
  | closed hseen _ ih =>
    refine .cons (fun t ht _ => ?_) (ih hok)
    cases ht
    exact .inr hseen
  | dangling _ hnone _ ih =>
    refine .cons (fun t ht hdef => ?_) (ih hok)
    cases ht
    exact absurd hdef (lookup_eq_none_iff.mp hnone)
  | known _ _ hknown onward ih =>
    -- kept when it is asked for, and so at the end
    refine .cons (fun t ht _ => ?_) (ih hok)
    cases ht
    exact .inl (onward.mem_keys (exists_lookup_iff.mp ⟨_, hknown⟩))
  | expanded _ _ _ _ _ onward _ ih =>
    refine .cons (fun t ht _ => ?_) (ih hok)
    cases ht
    exact .inl (onward.mem_keys (exists_lookup_iff.mp ⟨_, lookup_put_self⟩))

/-- After a reference was followed the expansion of its target is there. -/
theorem Walk.exists_expansion {target : String} {definition : Schema}
    (h : Walk defs seen [.follow target] p made (.ok ()) q) (hseen : target ∉ seen)
    (hdef : defs.lookup target = some definition) : ∃ r, q.expansions.lookup target = some r := by
  have hin : target ∈ keys defs := exists_lookup_iff.mp ⟨definition, hdef⟩
  exact exists_lookup_iff.mpr ((h.met target List.mem_cons_self hin).resolve_right hseen)

/-- Once a definition whose demands are met is stored, the memo is closed
without it being expanded. -/
theorem ClosedUpTo.store {target : String} {definition : Schema} {r : Resolution}
    {expansions : List (String × Resolution)}
    (h : ClosedUpTo defs (target :: seen) expansions)
    (hmet : Met defs (target :: seen) (demands definition) expansions)
    (hdef : defs.lookup target = some definition) (hnew : target ∉ keys expansions) :
    ClosedUpTo defs seen (put target r expansions) := by
  have hkeys : ∀ k, k ∈ keys (put target r expansions) ↔ k ∈ keys expansions ∨ k = target := by
    intro k
    rw [put_of_notMem hnew]
    simp [keys]
  -- what was kept or being expanded still is, the target now being kept
  have hmove : ∀ t, t ∈ keys expansions ∨ t ∈ target :: seen →
      t ∈ keys (put target r expansions) ∨ t ∈ seen := by
    intro t ht
    rw [hkeys]
    rcases ht with ht | ht
    · exact .inl (.inl ht)
    · rcases List.mem_cons.mp ht with rfl | ht
      · exact .inl (.inr rfl)
      · exact .inr ht
  intro k hk t hlead
  rcases (hkeys k).mp hk with hk | rfl
  · exact hmove t (h k hk t hlead)
  · obtain ⟨definition', hdef', hmentions, ht⟩ := hlead
    obtain rfl : definition = definition' := Option.some.inj (hdef.symm.trans hdef')
    exact hmove t (hmet t (follow_mem_demands.mpr hmentions) ht)

/-- **A walk keeps the memo closed up to what is being expanded.** -/
theorem Walk.closedUpTo (h : Walk defs seen ds p made (.ok ()) q)
    (hclosed : ClosedUpTo defs seen p.expansions) : ClosedUpTo defs seen q.expansions := by
  generalize hok : (Except.ok () : Except Failure Unit) = o at h
  induction h with
  | done => exact hclosed
  | unprintable | failed => cases hok
  | printed _ _ ih | closed _ _ ih | known _ _ _ _ ih => exact ih hclosed hok
  | dangling _ _ _ ih => exact ih hclosed hok
  | @expanded seen target _ _ _ p _ _ _ _ _ _ hdef hnew below _ _ ih ihonward =>
    refine ihonward ?_ hok
    have hmore : ClosedUpTo defs (target :: seen) p.expansions := fun k hk t hlead =>
      (hclosed k hk t hlead).imp id (List.mem_cons_of_mem target)
    exact (ih hmore rfl).store below.met hdef (below.grown.missing hnew)

/-! ## Nothing else is expanded -/

/-- Whatever a walk stores lies in any set that has the definitions it is
asked for and those its members lead to. -/
theorem Walk.made_subset (h : Walk defs seen ds p made o q) {R : String → Prop}
    (hstart : ∀ t, .follow t ∈ ds → t ∈ keys defs → R t)
    (hstep : ∀ k t, R k → Leads defs k t → R t) : ∀ k ∈ keys made, R k := by
  induction h with
  | done | unprintable => simp [keys]
  | printed _ _ ih | closed _ _ ih | known _ _ _ _ ih =>
    exact ih fun t ht => hstart t (List.mem_cons_of_mem _ ht)
  | dangling _ _ _ ih => exact ih fun t ht => hstart t (List.mem_cons_of_mem _ ht)
  | failed _ hdef _ _ ih =>
    refine ih fun t ht hin => ?_
    -- what is asked for below is what the target leads to
    have htarget := hstart _ List.mem_cons_self (exists_lookup_iff.mp ⟨_, hdef⟩)
    exact hstep _ t htarget ⟨_, hdef, follow_mem_demands.mp ht, hin⟩
  | expanded _ hdef _ _ _ _ ih ihonward =>
    have htarget := hstart _ List.mem_cons_self (exists_lookup_iff.mp ⟨_, hdef⟩)
    intro k hk
    rw [mem_keys_append, keys, keys, List.map_cons, List.mem_cons] at hk
    rcases hk with hk | rfl | hk
    · exact ih (fun t ht hin => hstep _ t htarget ⟨_, hdef, follow_mem_demands.mp ht, hin⟩) k hk
    · exact htarget
    · exact ihonward (fun t ht => hstart t (List.mem_cons_of_mem _ ht)) k hk

/-! ## What is expanded -/

/-- **A resolution expands exactly what is reachable.** If a node resolves
in a pass that has expanded nothing yet, the pass then keeps the
definitions that are reachable from the node and no others. -/
theorem expanded_iff_reachable {log : List LogEntry} {r : Resolution} {k : String}
    (h : (resolve defs [] node).result ⟨[], log⟩ = (.ok r, q)) :
    k ∈ keys q.expansions ↔ Reachable defs node k := by
  obtain ⟨⟨made, walk⟩, -⟩ := resolve_serves.walk h
  constructor
  · intro hk
    rw [walk.grown.kept, List.nil_append] at hk
    refine walk.made_subset (fun t ht hin => ?_) (fun j t hr => hr.step) k hk
    exact .start ⟨follow_mem_demands.mp ht, hin⟩
  · intro hr
    -- nothing is being expanded at the end, so closed up to that is closed
    have hclosed : ClosedUpTo defs [] q.expansions :=
      walk.closedUpTo fun j hj => absurd hj List.not_mem_nil
    induction hr with
    | start hrefers =>
      exact (walk.met _ (follow_mem_demands.mpr hrefers.1) hrefers.2).resolve_right
        List.not_mem_nil
    | step _ hleads ih => exact (hclosed _ ih _ hleads).resolve_right List.not_mem_nil

/-- The alias of the ring is reachable from a reference to the object, and
nothing outside the ring is. -/
theorem ring_reachable : Reachable ring (.reference "node" none) "link" ∧
    ¬ Reachable ring (.reference "node" none) "other" := by
  have h : (resolve ring [] (.reference "node" none)).result ⟨[], []⟩ =
      (.ok ⟨.named "Node", some (.plain (.object [(⟨"next", false⟩, .named "Link")]))⟩,
        ⟨ringExpansions, []⟩) := by cbv
  exact ⟨(expanded_iff_reachable h).mp (by decide),
    fun hr => absurd ((expanded_iff_reachable h).mpr hr) (by decide)⟩

end TypeScript

end ApiMock
