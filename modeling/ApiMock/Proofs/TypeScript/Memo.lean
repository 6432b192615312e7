import ApiMock.Proofs.TypeScript.Serve
import Mathlib
/-!
# TypeScript — the expansions of a pass

The expansions are a memo of the definitions: what is kept under a name is
what the definition resolves to, and it is written once. A definition is
asked for while it is missing and stored after its own demands are served;
it is not stored in between, since it counts as being expanded until then.
-/

namespace ApiMock

namespace TypeScript

open Entries Resolving Sequence

variable {defs : Definitions} {seen : List String} {ds : List Demand}
  {before between after made later : List (String × Resolution)} {p q : Pass}
  {o : Except Failure Unit}

/-- From `before` to `after` the stores `made` were performed: each is new,
of a definition, and of none that is being expanded. -/
structure Grown (defs : Definitions) (seen : List String)
    (before made after : List (String × Resolution)) : Prop where
  performed : after = merge before made
  /-- What was there stays at its place. -/
  kept : after = before ++ made
  /-- No key is stored twice. -/
  once : (keys made).Nodup
  /-- No key is stored that was there. -/
  fresh : ∀ k ∈ keys made, k ∉ keys before
  defined : ∀ k ∈ keys made, k ∈ keys defs
  unseen : ∀ k ∈ keys made, k ∉ seen

namespace Grown

theorem refl : Grown defs seen before [] before :=
  ⟨rfl, (List.append_nil _).symm, .nil, by simp [keys], by simp [keys], by simp [keys]⟩

theorem trans (first : Grown defs seen before made between)
    (second : Grown defs seen between later after) :
    Grown defs seen before (made ++ later) after where
  performed := by rw [second.performed, first.performed, merge_append]
  kept := by rw [second.kept, first.kept, List.append_assoc]
  once := by
    rw [keys, List.map_append, List.nodup_append]
    refine ⟨first.once, second.once, ?_⟩
    rintro k hmade _ hlater rfl
    -- the second step stores nothing that was there, and `made` was
    have hnot : k ∉ keys between := second.fresh k hlater
    rw [first.kept, mem_keys_append, not_or] at hnot
    exact hnot.2 hmade
  fresh := by
    intro k hk hbefore
    rw [mem_keys_append] at hk
    rcases hk with hk | hk
    · exact first.fresh k hk hbefore
    · refine second.fresh k hk ?_
      rw [first.kept, mem_keys_append]
      exact .inl hbefore
  defined := by
    intro k hk
    rw [mem_keys_append] at hk
    exact hk.elim (first.defined k) (second.defined k)
  unseen := by
    intro k hk
    rw [mem_keys_append] at hk
    exact hk.elim (first.unseen k) (second.unseen k)

/-- Of more definitions that are being expanded, none is stored either. -/
theorem weaken {fewer : List String} (h : Grown defs seen before made after)
    (hsub : ∀ k ∈ fewer, k ∈ seen) : Grown defs fewer before made after :=
  { h with unseen := fun k hk hin => h.unseen k hk (hsub k hin) }

/-- Storing what is missing is such a step. -/
theorem store {name : String} {r : Resolution} (hnew : name ∉ keys before)
    (hdef : name ∈ keys defs) (hseen : name ∉ seen) :
    Grown defs seen before [(name, r)] (put name r before) where
  performed := rfl
  kept := put_of_notMem hnew
  once := by simp [keys]
  fresh := by
    rintro k (_ | ⟨_, ⟨⟩⟩)
    exact hnew
  defined := by
    rintro k (_ | ⟨_, ⟨⟩⟩)
    exact hdef
  unseen := by
    rintro k (_ | ⟨_, ⟨⟩⟩)
    exact hseen

/-- What is being expanded and was missing, is missing still. -/
theorem missing {name : String} (h : Grown defs (name :: seen) before made after)
    (hnew : before.lookup name = none) : name ∉ keys after := by
  rw [h.kept, mem_keys_append, not_or]
  exact ⟨lookup_eq_none_iff.mp hnew, fun hmade => h.unseen name hmade List.mem_cons_self⟩

end Grown

/-- **A walk stores each definition at most once, and none that was there
or is being expanded.** -/
theorem Walk.grown (h : Walk defs seen ds p made o q) :
    Grown defs seen p.expansions made q.expansions := by
  induction h with
  | done | unprintable => exact .refl
  | printed _ _ ih | closed _ _ ih | known _ _ _ _ ih => exact ih
  | dangling _ _ _ ih => exact ih
  | failed _ _ _ _ ih => exact ih.weaken fun k hk => List.mem_cons_of_mem _ hk
  | @expanded seen target definition r rest p inner q made later o hseen hdef hnew below hr onward
      ih ihonward =>
    -- below the target it counts as being expanded, so it is still missing here
    have hstored : Grown defs seen inner.expansions [(target, r)]
        (inner.stored target r).expansions :=
      .store (ih.missing hnew) (exists_lookup_iff.mp ⟨definition, hdef⟩) hseen
    exact (ih.weaken fun k hk => List.mem_cons_of_mem target hk).trans (hstored.trans ihonward)

/-! ## Soundness -/

/-- Each entry is kept under the name of a definition and has the type
that is read off its tree. -/
def Sound (defs : Definitions) (expansions : List (String × Resolution)) : Prop :=
  ∀ e ∈ expansions, ∃ node, defs.lookup e.1 = some node ∧
    TypeExpr.ofNode (keys defs) node = .ok e.2.type

/-- While only definitions are being expanded, a node is served the type
that is read off its tree. -/
theorem ofNode_of_served {node : Schema} {r : Resolution} (hseen : ∀ k ∈ seen, k ∈ keys defs)
    (h : served defs seen node q = .ok r) : TypeExpr.ofNode (keys defs) node = .ok r.type := by
  have hknown : ∀ n, n ∈ seen ++ keys defs ↔ n ∈ keys defs := by
    intro n
    rw [List.mem_append]
    exact ⟨fun hn => hn.elim (hseen n) id, .inr⟩
  have htype : Resolution.type <$> served defs seen node q =
    TypeExpr.ofNode (seen ++ keys defs) node := served_type
  rw [← TypeExpr.ofNode_congr hknown, ← htype, h]
  rfl

/-- Where a target is followed only definitions are being expanded below it. -/
theorem mem_keys_of_expanding {target : String} {definition : Schema}
    (hdef : defs.lookup target = some definition) (hseen : ∀ k ∈ seen, k ∈ keys defs) :
    ∀ k ∈ target :: seen, k ∈ keys defs := by
  intro k hk
  rcases List.mem_cons.mp hk with rfl | hk
  · exact exists_lookup_iff.mp ⟨definition, hdef⟩
  · exact hseen k hk

theorem Sound.append (h : Sound defs before) (hlater : Sound defs later) :
    Sound defs (before ++ later) := by
  intro e he
  rcases List.mem_append.mp he with he | he
  · exact h e he
  · exact hlater e he

/-- **What a walk stores is sound**, also in a memo that is not. -/
theorem Walk.sound_made (h : Walk defs seen ds p made o q) (hseen : ∀ k ∈ seen, k ∈ keys defs) :
    Sound defs made := by
  induction h with
  | done | unprintable => exact fun e he => absurd he List.not_mem_nil
  | printed _ _ ih | closed _ _ ih | known _ _ _ _ ih => exact ih hseen
  | dangling _ _ _ ih => exact ih hseen
  | failed _ hdef _ _ ih => exact ih (mem_keys_of_expanding hdef hseen)
  | @expanded seen target definition r rest p inner q made later o _ hdef _ _ hr _ ih ihonward =>
    have hbelow : ∀ k ∈ target :: seen, k ∈ keys defs := mem_keys_of_expanding hdef hseen
    have hstored : Sound defs [(target, r)] := by
      intro e he
      rw [List.mem_singleton.mp he]
      exact ⟨definition, hdef, ofNode_of_served hbelow hr⟩
    exact (ih hbelow).append (hstored.append (ihonward hseen))

/-- **A walk keeps the memo sound.** -/
theorem Walk.sound (h : Walk defs seen ds p made o q) (hseen : ∀ k ∈ seen, k ∈ keys defs)
    (hsound : Sound defs p.expansions) : Sound defs q.expansions := by
  rw [h.grown.kept]
  exact hsound.append (h.sound_made hseen)

/-! ## Sweeps -/

namespace Sweep

variable {rest : Definitions}

/-- A sweep stores each definition at most once. -/
theorem grown (h : Sweep defs rest p made q) :
    Grown defs [] p.expansions made q.expansions := by
  induction h with
  | done => exact .refl
  | next walk _ ih => exact (walk.grown.weaken (by simp)).trans ih

/-- A sweep over definitions keeps the memo sound. -/
theorem sound (h : Sweep defs rest p made q) (hrest : ∀ d ∈ rest, d.1 ∈ keys defs)
    (hsound : Sound defs p.expansions) : Sound defs q.expansions := by
  induction h with
  | done => exact hsound
  | next walk _ ih =>
    refine ih (fun d hd => hrest d (List.mem_cons_of_mem _ hd)) (walk.sound ?_ hsound)
    intro k hk
    rw [List.mem_singleton.mp hk]
    exact hrest _ List.mem_cons_self

end Sweep

/-! ## The memo of a pass -/

/-- **The expansions are a memo that is written once.** Resolving a node,
declaring a definition and declaring all of them perform a course of
stores after which every entry of a sound memo is still at its place; each
store is of a definition that was missing and that was not being expanded,
none is repeated, and the memo is sound again. -/
theorem expansions_written_once (defs : Definitions) :
    (∀ seen node p q r, (∀ k ∈ seen, k ∈ keys defs) → Sound defs p.expansions →
      (resolve defs seen node).result p = (.ok r, q) →
      ∃ made, Walk defs seen (demands node) p made (.ok ()) q ∧
        Grown defs seen p.expansions made q.expansions ∧ Sound defs q.expansions) ∧
    (∀ name node p q d, name ∈ keys defs → Sound defs p.expansions →
      (declare defs name node).result p = (.ok d, q) →
      ∃ made, Walk defs [name] (demands node) p made (.ok ()) q ∧
        Grown defs [name] p.expansions made q.expansions ∧ Sound defs q.expansions) ∧
    (∀ p q table, Sound defs p.expansions → (declareAll defs).result p = (.ok table, q) →
      ∃ made, Sweep defs defs p made q ∧
        Grown defs [] p.expansions made q.expansions ∧ Sound defs q.expansions) := by
  refine ⟨fun seen node p q r hseen hsound h => ?_, fun name node p q d hname hsound h => ?_,
    fun p q table hsound h => ?_⟩
  · obtain ⟨⟨made, walk⟩, -⟩ := resolve_serves.walk h
    exact ⟨made, walk, walk.grown, walk.sound hseen hsound⟩
  · obtain ⟨made, walk⟩ := declare_walk h
    have hseen : ∀ k ∈ [name], k ∈ keys defs := by
      intro k hk
      rw [List.mem_singleton.mp hk]
      exact hname
    exact ⟨made, walk, walk.grown, walk.sound hseen hsound⟩
  · obtain ⟨made, sweep⟩ := declareAll_sweep h
    exact ⟨made, sweep, sweep.grown, sweep.sound (fun d hd => List.mem_map_of_mem hd) hsound⟩

/-- Two definitions, an object and an alias, that refer to each other. -/
def ring : Definitions :=
  [("node", .object (some "object") none none [("next", .reference "link" none)] []),
    ("link", .reference "node" none)]

/-- The expansions of the ring, in the order in which they are stored. -/
def ringExpansions : List (String × Resolution) :=
  [("link", .plain (.named "Node")),
    ("node", .plain (.object [(⟨"next", false⟩, .named "Link")]))]

/-- On a ring every way of starting stores each expansion once. -/
theorem ring_written_once :
    (∃ made, Grown ring [] [] made ringExpansions ∧ Sound ring ringExpansions) ∧
      (∃ made, Grown ring ["link"] [] made (ringExpansions.drop 1) ∧
        Sound ring (ringExpansions.drop 1)) ∧
      ∃ made, Sweep ring ring ⟨[], []⟩ made ⟨ringExpansions, []⟩ ∧
        Grown ring [] [] made ringExpansions ∧ Sound ring ringExpansions := by
  have hempty : Sound ring [] := by simp [Sound]
  obtain ⟨hresolve, hdeclare, hall⟩ := expansions_written_once ring
  refine ⟨?_, ?_, ?_⟩
  · obtain ⟨made, -, h⟩ := hresolve [] (.reference "node" none) ⟨[], []⟩ ⟨ringExpansions, []⟩
      ⟨.named "Node", some (.plain (.object [(⟨"next", false⟩, .named "Link")]))⟩ (by simp)
      hempty (by cbv)
    exact ⟨made, h⟩
  · obtain ⟨made, -, h⟩ := hdeclare "link" (.reference "node" none) ⟨[], []⟩
      ⟨ringExpansions.drop 1, []⟩ ⟨"Link", none, .alias (.named "Node")⟩ (by decide) hempty (by cbv)
    exact ⟨made, h⟩
  · obtain ⟨made, h⟩ := hall ⟨[], []⟩ ⟨ringExpansions, []⟩
      [("Node", ⟨"node", ⟨"Node", none, .interface [⟨none, ⟨"next", false⟩, .named "Link"⟩]⟩⟩),
        ("Link", ⟨"link", ⟨"Link", none, .alias (.named "Node")⟩⟩)] hempty (by cbv)
    exact ⟨made, h⟩

end TypeScript

end ApiMock
