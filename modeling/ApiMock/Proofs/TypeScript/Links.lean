import ApiMock.Proofs.TypeScript.Serve
import ApiMock.Proofs.TypeScript.Reach
import ApiMock.Proofs.TypeScript.Recursion
/-!
# TypeScript — from expansion to expansion

What a reference resolves to holds what is kept of its target. If the target
is a reference as well, that holds something in turn, and so on. Such a
chain ends: what is kept of a definition was stored after whatever it holds
(`Laid`), so along a chain the definitions are passed through in the order
opposite to that of the stores, and none comes twice. It does not matter
while which definitions the entries were made.
-/

namespace ApiMock

namespace TypeScript

open Entries Resolving Sequence

/-- A resolution, what it holds, what that holds, and so on. -/
def Resolution.chain : Resolution → List Resolution
  | mk t none => [mk t none]
  | mk t (some r) => mk t (some r) :: r.chain

/-- A resolution of the node holds nothing, or the node is a reference and
it holds what is kept of the target. -/
inductive Linked (defs : Definitions) (kept : List (String × Resolution)) :
    Schema → Resolution → Prop where
  | bare {node : Schema} {r : Resolution} (h : r.expansion = none) : Linked defs kept node r
  | link {target : String} {description : Option Data} {definition : Schema} {r : Resolution}
      (hdef : defs.lookup target = some definition) (hkept : kept.lookup target = some r) :
      Linked defs kept (.reference target description) ⟨.named (Naming.pascal target), some r⟩

/-- Entries that were stored one after the other, each of a definition and
linked to those before it. -/
inductive Laid (defs : Definitions) : List (String × Resolution) → Prop where
  | nil : Laid defs []
  | store {kept : List (String × Resolution)} {name : String} {definition : Schema}
      {r : Resolution} (h : Laid defs kept) (hnew : name ∉ keys kept)
      (hdef : defs.lookup name = some definition) (hlink : Linked defs kept definition r) :
      Laid defs (put name r kept)

/-- `Trail defs node r ks last` says that from the resolution `r` of the node
one comes to `last`, which holds nothing, through what is held of the
definitions `ks`. Each of them is the target of a reference: of the node
itself, and then of the definition before it. -/
inductive Trail (defs : Definitions) : Schema → Resolution → List String → Resolution → Prop where
  | bare {node : Schema} {r : Resolution} (h : r.expansion = none) : Trail defs node r [] r
  | link {target : String} {description : Option Data} {definition : Schema}
      {r last : Resolution} {ks : List String} (hdef : defs.lookup target = some definition)
      (onward : Trail defs definition r ks last) :
      Trail defs (.reference target description) ⟨.named (Naming.pascal target), some r⟩
        (target :: ks) last

variable {defs : Definitions} {seen : List String} {ds : List Demand} {node : Schema}
  {kept made : List (String × Resolution)} {r last : Resolution} {ks : List String} {p q : Pass}
  {o : Except Failure Unit} {target name : String}

/-! ## What is kept is laid in order -/

/-- What a node is served is linked to what is kept. -/
theorem linked_of_served (h : served defs seen node q = .ok r) :
    Linked defs q.expansions node r := by
  cases node with
  | reference target description =>
    by_cases hseen : target ∈ seen
    · rw [served_closed hseen] at h
      cases h
      exact .bare rfl
    · cases hdef : defs.lookup target with
      | none =>
        rw [served_dangling hseen hdef] at h
        cases h
        exact .bare rfl
      | some definition =>
        rw [served_followed hseen hdef] at h
        cases hkept : q.expansions.lookup target with
        | none =>
          rw [hkept] at h
          cases h
          exact .bare rfl
        | some made =>
          rw [hkept] at h
          cases h
          exact .link hdef hkept
  | _ =>
    obtain ⟨t, -, rfl⟩ := of_map_ok h
    exact .bare rfl

/-- **A walk keeps the entries laid in order.** -/
theorem Walk.laid (h : Walk defs seen ds p made o q) (hlaid : Laid defs p.expansions) :
    Laid defs q.expansions := by
  induction h with
  | done | unprintable => exact hlaid
  | printed _ _ ih | closed _ _ ih | dangling _ _ _ ih | known _ _ _ _ ih
  | failed _ _ _ _ ih => exact ih hlaid
  | expanded _ hdef hnew below hr _ ihbelow ih =>
    -- the expansion is stored last, behind whatever it is linked to
    exact ih ((ihbelow hlaid).store (below.grown.missing hnew) hdef (linked_of_served hr))

/-- Only definitions are kept. -/
theorem Laid.defined (h : Laid defs kept) : ∀ k ∈ keys kept, k ∈ keys defs := by
  induction h with
  | nil => exact fun k hk => absurd hk List.not_mem_nil
  | @store kept name definition r h hnew hdef hlink ih =>
    intro k hk
    rw [put_of_notMem hnew, mem_keys_append] at hk
    rcases hk with hk | hk
    · exact ih k hk
    · rw [List.mem_singleton.mp hk]
      exact exists_lookup_iff.mp ⟨definition, hdef⟩

/-- **From what is linked to entries laid in order one comes to an end**,
through different ones of them. -/
theorem Laid.exists_trail (h : Laid defs kept) (hlink : Linked defs kept node r) :
    ∃ ks last, Trail defs node r ks last ∧ ks.Nodup ∧ ∀ k ∈ ks, k ∈ keys kept := by
  induction h generalizing node r with
  | nil =>
    cases hlink with
    | bare hr => exact ⟨[], r, .bare hr, .nil, by simp⟩
    | link hdef hkept => cases hkept
  | @store kept name definition made h hnew hdef hmade ih =>
    have hkeys : ∀ k, k ∈ keys kept → k ∈ keys (put name made kept) := by
      intro k hk
      rw [put_of_notMem hnew, mem_keys_append]
      exact .inl hk
    cases hlink with
    | bare hr => exact ⟨[], r, .bare hr, .nil, by simp⟩
    | @link target description found r hfound hkept =>
      by_cases hname : target = name
      · -- the entry that was stored last: it is linked to those before it
        subst hname
        rw [lookup_put_self] at hkept
        obtain rfl := Option.some.inj hkept
        obtain ⟨ks, last, trail, hnodup, hks⟩ := ih hmade
        refine ⟨target :: ks, last, .link hdef trail, ?_, fun k hk => ?_⟩
        · exact List.nodup_cons.mpr ⟨fun hin => hnew (hks target hin), hnodup⟩
        · rcases List.mem_cons.mp hk with rfl | hk
          · exact exists_lookup_iff.mp ⟨made, lookup_put_self⟩
          · exact hkeys k (hks k hk)
      · rw [lookup_put_of_ne hname] at hkept
        obtain ⟨ks, last, trail, hnodup, hks⟩ := ih (.link hfound hkept)
        exact ⟨ks, last, trail, hnodup, fun k hk => hkeys k (hks k hk)⟩

namespace Trail

/-- A trail passes through every resolution of the chain. -/
theorem length_chain (h : Trail defs node r ks last) : r.chain.length = ks.length + 1 := by
  induction h with
  | @bare node r hr =>
    obtain ⟨t, e⟩ := r
    obtain rfl : e = none := hr
    rw [Resolution.chain]
    rfl
  | link _ _ ih =>
    rw [Resolution.chain, List.length_cons, ih, List.length_cons]

/-- At its end nothing is held. -/
theorem expansion_last (h : Trail defs node r ks last) : last.expansion = none := by
  induction h with
  | bare hr => exact hr
  | link _ _ ih => exact ih

end Trail

/-! ## Expansions that are there -/

/-- **A reference holds nothing exactly if it closes a cycle or leads
nowhere.** -/
theorem expansion_eq_none_iff {description : Option Data}
    (h : (resolve defs seen (.reference target description)).result p = (.ok r, q)) :
    r.expansion = none ↔ target ∈ seen ∨ target ∉ keys defs := by
  obtain ⟨⟨made, walk⟩, hserved⟩ := resolve_serves.walk h
  by_cases hseen : target ∈ seen
  · rw [served_closed hseen] at hserved
    cases hserved
    exact ⟨fun _ => .inl hseen, fun _ => rfl⟩
  · cases hdef : defs.lookup target with
    | none =>
      rw [served_dangling hseen hdef] at hserved
      cases hserved
      exact ⟨fun _ => .inr (lookup_eq_none_iff.mp hdef), fun _ => rfl⟩
    | some definition =>
      have hin : target ∈ keys defs := exists_lookup_iff.mp ⟨definition, hdef⟩
      obtain ⟨kept, hkept⟩ := walk.exists_expansion hseen hdef
      rw [served_followed hseen hdef, hkept] at hserved
      cases hserved
      exact ⟨nofun, fun hnot => absurd hin (hnot.resolve_left hseen)⟩

/-! ## What any calls gather -/

/-- What is gathered by any calls over the definitions, one after the other:
resolving a node while any names count as being expanded, and declaring one
under any name. Calls that fail are among them. -/
inductive Gathered (defs : Definitions) : Pass → Prop where
  | nothing (log : List LogEntry) : Gathered defs ⟨[], log⟩
  | resolve {p : Pass} (h : Gathered defs p) (seen : List String) (node : Schema) :
      Gathered defs ((resolve defs seen node).result p).2
  | declare {p : Pass} (h : Gathered defs p) (name : String) (node : Schema) :
      Gathered defs ((declare defs name node).result p).2

/-- Entries that are laid in order stay so. -/
def StaysLaid (defs : Definitions) (p q : Pass) : Prop :=
  Laid defs p.expansions → Laid defs q.expansions

instance : IsPreorder Pass (StaysLaid defs) where
  refl _ := id
  trans _ _ _ h h' := h' ∘ h

theorem resolve_staysLaid : Moves (StaysLaid defs) (resolve defs seen node) := by
  intro p hlaid
  obtain ⟨made, o, q, walk, hresult⟩ := @resolve_serves defs seen node p
  rw [hresult]
  exact walk.laid hlaid

/-- **Whatever calls are made, their entries are laid in order.** -/
theorem Gathered.laid (h : Gathered defs p) : Laid defs p.expansions := by
  induction h with
  | nothing => exact .nil
  | resolve _ seen node ih => exact resolve_staysLaid _ ih
  | declare _ name node ih => exact declare_moves (fun s _ => resolve_staysLaid) _ ih

/-- **Expansions are there exactly where they should be, and end.** After any
calls a reference resolves to what holds nothing exactly if its target is
being expanded or is no definition. From what a node resolves to, one comes
through what is held to what holds nothing, by way of different definitions,
so there are at most as many as definitions and one more on the way. The same
holds from what is kept of a definition, which itself is not come by again. -/
theorem expansions_end (hp : Gathered defs p)
    (h : (resolve defs seen node).result p = (.ok r, q)) :
    (∀ target description, node = .reference target description →
      (r.expansion = none ↔ target ∈ seen ∨ target ∉ keys defs)) ∧
    (∃ ks last, Trail defs node r ks last ∧ last.expansion = none ∧ ks.Nodup ∧
      (∀ k ∈ ks, k ∈ keys defs) ∧ r.chain.length = ks.length + 1 ∧
      r.chain.length ≤ defs.length + 1) ∧
    ∀ name kept, q.expansions.lookup name = some kept →
      ∃ definition ks last, defs.lookup name = some definition ∧
        Trail defs definition kept ks last ∧ (name :: ks).Nodup := by
  have hlaid : Laid defs q.expansions := by
    have hmoved := (hp.resolve seen node).laid
    rwa [h] at hmoved
  have hserved := (resolve_serves.walk h).2
  refine ⟨?_, ?_, fun name kept hkept => ?_⟩
  · rintro target description rfl
    exact expansion_eq_none_iff h
  · obtain ⟨ks, last, trail, hnodup, hks⟩ := hlaid.exists_trail (linked_of_served hserved)
    have hdefined : ∀ k ∈ ks, k ∈ keys defs := fun k hk => hlaid.defined k (hks k hk)
    have hlength : ks.length ≤ defs.length := by
      calc ks.length ≤ (keys defs).length := (List.subperm_of_subset hnodup hdefined).length_le
        _ = defs.length := List.length_map _
    refine ⟨ks, last, trail, trail.expansion_last, hnodup, hdefined, trail.length_chain, ?_⟩
    rw [trail.length_chain]
    omega
  · -- what is kept of a definition is what a reference to it would hold
    have hname : name ∈ keys defs := hlaid.defined name (exists_lookup_iff.mp ⟨kept, hkept⟩)
    obtain ⟨definition, hdef⟩ := exists_lookup_iff.mpr hname
    have hlink : Linked defs q.expansions (.reference name none)
        ⟨.named (Naming.pascal name), some kept⟩ := .link hdef hkept
    obtain ⟨ks, last, trail, hnodup, -⟩ := hlaid.exists_trail hlink
    cases trail with
    | bare hr => cases hr
    | @link _ _ found _ _ ks hfound onward =>
      obtain rfl : definition = found := Option.some.inj (hdef.symm.trans hfound)
      exact ⟨definition, ks, last, hdef, onward, hnodup⟩

/-- What the aliases resolve to, from the one that is cut short. -/
def aliasResolutions : Resolution × Resolution :=
  let a : Resolution := .plain (.named "B")
  (a, ⟨.named "A", some a⟩)

/-- Once `b` was resolved, a reference to it holds what was kept of it then,
also while `a` counts as being expanded. It comes through `b` and `a` to the
bare name of `b`: the chain is as long as it can be. -/
theorem aliases_chained :
    ∃ p q, Gathered aliases p ∧
      (resolve aliases ["a"] (.reference "b" none)).result p =
        (.ok ⟨.named "B", some aliasResolutions.2⟩, q) ∧
      ("b" ∉ ["a"] ∧ "b" ∈ keys aliases) ∧
      (∃ ks last, Trail aliases (.reference "b" none) ⟨.named "B", some aliasResolutions.2⟩ ks last ∧
        ks = ["b", "a"] ∧ last = aliasResolutions.1 ∧ ks.Nodup ∧
        ks.length + 1 = aliases.length + 1) := by
  let p : Pass := ⟨[("a", aliasResolutions.1), ("b", aliasResolutions.2)], []⟩
  have hp : Gathered aliases p := by
    have hrun : ((resolve aliases [] (.reference "b" none)).result ⟨[], []⟩).2 = p := by cbv
    rw [← hrun]
    exact (Gathered.nothing []).resolve [] _
  have h : (resolve aliases ["a"] (.reference "b" none)).result p =
      (.ok ⟨.named "B", some aliasResolutions.2⟩, p) := by cbv
  obtain ⟨hholds, ⟨ks, last, trail, -, hnodup, -, -, -⟩, -⟩ := expansions_end hp h
  have hnot : ¬ ("b" ∈ ["a"] ∨ "b" ∉ keys aliases) := by
    intro hin
    have hnone := (hholds "b" none rfl).mpr hin
    cases hnone
  rw [not_or, not_not] at hnot
  refine ⟨p, p, hp, h, hnot, ks, last, trail, ?_⟩
  -- the chain is followed: at each link there is one way to go on
  cases trail with
  | bare hr => cases hr
  | link hdef onward =>
    cases hdef
    cases onward with
    | bare hr => cases hr
    | link hdef onward =>
      cases hdef
      cases onward with
      | bare hr => exact ⟨rfl, rfl, hnodup, rfl⟩

end TypeScript

end ApiMock
