import ApiMock.Proofs.Entries
import ApiMock.Proofs.Schema.Tree
import ApiMock.Proofs.TypeScript.Equations
import Mathlib.Data.List.Perm.Subperm
/-!
# TypeScript — the recursion of resolving

Resolving a node calls itself on the nodes below and, past a reference, on
a definition that need not be smaller. A call makes only calls along
`Calls`, and along those the measure goes down: first the number of
definitions that are not being expanded, then the size of the node. So the
calls of any chain end, and the equations of resolving have one solution
on every set of definitions.
-/

namespace ApiMock

namespace TypeScript

/-- A call: to resolve a node while the definitions in `seen` are being
expanded, to declare a definition, or to declare all of them. -/
inductive Call where
  | node (seen : List String) (s : Schema)
  | definition (name : String) (s : Schema)
  | all

namespace Call

/-- What a call gives. -/
def Answer : Call → Type
  | node .. => Resolution
  | definition .. => Declaration
  | all => List (String × Declared)

/-- The definitions that count as being expanded during a call. -/
def seen : Call → List String
  | node seen _ => seen
  | definition name _ => [name]
  | all => []

/-- The measure of a call. -/
def measure (defs : Definitions) : Call → Nat × Nat
  | node seen s => (unseen defs seen, s.size)
  | definition name s => (unseen defs [name], s.size + 1)
  | all => (defs.length + 1, 0)

end Call

/-- What a call does, with the calls it makes left open. -/
def step (defs : Definitions) (call : (c : Call) → Resolving c.Answer) :
    (c : Call) → Resolving c.Answer
  | .node seen s => resolveWith defs (fun seen s => call (.node seen s)) seen s
  | .definition name s => declareWith (fun seen s => call (.node seen s)) name s
  | .all => declareAllWith defs fun name s => call (.definition name s)

/-- What the program does for a call. -/
def run (defs : Definitions) : (c : Call) → Resolving c.Answer
  | .node seen s => resolve defs seen s
  | .definition name s => declare defs name s
  | .all => declareAll defs

/-- The calls that a call may make, with the target of the reference that
is expanded by it, if there is one. -/
inductive Calls (defs : Definitions) : Call → List String → Call → Prop where
  | items {seen : List String} {declared format : Option String} {description : Option Data}
      {s : Schema} :
      Calls defs (.node seen (.array declared format description (some s))) [] (.node seen s)
  | property {seen : List String} {declared format : Option String} {description : Option Data}
      {properties : List (String × Schema)} {required : List String} {e : String × Schema}
      (he : e ∈ properties) :
      Calls defs (.node seen (.object declared format description properties required)) []
        (.node seen e.2)
  | reference {seen : List String} {target : String} {description : Option Data}
      {definition : Schema} (hseen : target ∉ seen)
      (hdef : defs.lookup target = some definition) :
      Calls defs (.node seen (.reference target description)) [target]
        (.node (target :: seen) definition)
  | member {name : String} {declared format : Option String} {description : Option Data}
      {properties : List (String × Schema)} {required : List String} {e : String × Schema}
      (he : e ∈ properties) :
      Calls defs (.definition name (.object declared format description properties required)) []
        (.node [name] e.2)
  | aliased {name : String} {s : Schema} (h : ∀ t f d ps rs, s ≠ .object t f d ps rs) :
      Calls defs (.definition name s) [] (.node [name] s)
  | declaration {d : String × Schema} (hd : d ∈ defs) :
      Calls defs .all [] (.definition d.1 d.2)

/-- A chain of calls, each made by the one before, with the targets that
are expanded along it. -/
inductive Chain (defs : Definitions) (c : Call) : List String → Call → Prop where
  | start : Chain defs c [] c
  | call {targets opened : List String} {c' c'' : Call} (h : Chain defs c targets c')
      (hcall : Calls defs c' opened c'') : Chain defs c (opened ++ targets) c''

variable {defs : Definitions} {c c' : Call} {opened targets : List String}

/-! ## The measure goes down -/

/-- **A call makes only calls of smaller measure.** -/
theorem Calls.measure_lt (h : Calls defs c opened c') :
    Prod.Lex (· < ·) (· < ·) (c'.measure defs) (c.measure defs) := by
  cases h with
  | items =>
    apply Prod.Lex.right
    rw [Schema.size]
    omega
  | property he | member he =>
    apply Prod.Lex.right
    have hle := Schema.size_le_sizes he
    rw [Schema.size]
    omega
  | reference hseen hdef =>
    apply Prod.Lex.left
    exact unseen_cons_lt hdef (by simpa using hseen)
  | aliased =>
    apply Prod.Lex.right
    omega
  | @declaration d hd =>
    apply Prod.Lex.left
    have hle : unseen defs [d.1] ≤ defs.length := List.countP_le_length
    omega

/-- So no chain of calls goes on for ever. -/
theorem Calls.wellFounded : WellFounded fun c' c => ∃ opened, Calls defs c opened c' := by
  refine Subrelation.wf (fun h => ?_)
    (InvImage.wf (Call.measure defs) (Prod.lex Nat.lt_wfRel Nat.lt_wfRel).wf)
  obtain ⟨opened, h⟩ := h
  exact h.measure_lt

/-- **The program solves the equations of resolving.** -/
theorem run_eq_step : run defs c = step defs (run defs) c := by
  cases c with
  | node seen s => exact resolve_eq_with
  | definition name s => exact declare_eq_with
  | all => rfl

/-! ## A call depends on the calls it makes and on no others -/

section

variable {m : Type → Type} [Monad m] {α β γ : Type}

theorem mapM_congr_mem [LawfulMonad m] {f g : α → m β} {xs : List α} (h : ∀ x ∈ xs, f x = g x) :
    xs.mapM f = xs.mapM g := by
  induction xs with
  | nil => rfl
  | cons x rest ih =>
    rw [List.mapM_cons, List.mapM_cons, h x List.mem_cons_self,
      ih fun y hy => h y (List.mem_cons_of_mem x hy)]

theorem foldlM_congr_mem {f g : γ → α → m γ} {xs : List α} {init : γ}
    (h : ∀ x ∈ xs, ∀ s, f s x = g s x) : xs.foldlM f init = xs.foldlM g init := by
  induction xs generalizing init with
  | nil => rfl
  | cons x rest ih =>
    rw [List.foldlM_cons, List.foldlM_cons, h x List.mem_cons_self]
    exact bind_congr fun s => ih fun y hy => h y (List.mem_cons_of_mem x hy)

end

variable {resolveIn other : List String → Schema → Resolving Resolution}

/-- Resolving a node depends on the nodes below it and on the definition
behind it. -/
theorem resolveWith_congr {seen : List String} {s : Schema}
    (h : ∀ opened seen' s', Calls defs (.node seen s) opened (.node seen' s') →
      resolveIn seen' s' = other seen' s') :
    resolveWith defs resolveIn seen s = resolveWith defs other seen s := by
  cases s with
  | array declared format description items =>
    cases items with
    | none => rfl
    | some s => rw [resolveWith, resolveWith, h _ _ _ .items]
  | object declared format description properties required =>
    rw [resolveWith, resolveWith]
    congr 1
    exact mapM_congr_mem fun e he => by rw [h _ _ _ (.property he)]
  | reference target description =>
    rw [resolveWith, resolveWith]
    by_cases hseen : seen.contains target = true
    · rw [if_pos hseen, if_pos hseen]
    · rw [if_neg hseen, if_neg hseen]
      have hnot : target ∉ seen := fun hin => hseen (List.contains_iff_mem.mpr hin)
      cases hdef : defs.lookup target with
      | none => rfl
      | some definition => simp only [h _ _ _ (.reference hnot hdef)]
  | enumeration declared format description values => cases values <;> rfl
  | _ => rfl

/-- Declaring a definition depends on its node and on its properties. -/
theorem declareWith_congr {name : String} {s : Schema}
    (h : ∀ opened seen' s', Calls defs (.definition name s) opened (.node seen' s') →
      resolveIn seen' s' = other seen' s') :
    declareWith resolveIn name s = declareWith other name s := by
  rcases object_or_not s with ⟨t, f, d, ps, rs, rfl⟩ | hnot
  · rw [declareWith_object, declareWith_object]
    congr 1
    exact mapM_congr_mem fun e he => by rw [memberWith, memberWith, h _ _ _ (.member he)]
  · rw [declareWith_alias hnot, declareWith_alias hnot, h _ _ _ (.aliased hnot)]

/-- **What a call does is settled by what is done for the calls it may
make.** -/
theorem step_congr {call call' : (c : Call) → Resolving c.Answer}
    (h : ∀ opened c', Calls defs c opened c' → call c' = call' c') :
    step defs call c = step defs call' c := by
  cases c with
  | node seen s => exact resolveWith_congr fun opened seen' s' hcall => h opened _ hcall
  | definition name s => exact declareWith_congr fun opened seen' s' hcall => h opened _ hcall
  | all =>
    refine foldlM_congr_mem fun d hd table => ?_
    have hd : call (.definition d.1 d.2) = call' (.definition d.1 d.2) := h _ _ (.declaration hd)
    simp only [hd]

/-- **The equations of resolving have one solution.** -/
theorem eq_run_of_eq_step {call : (c : Call) → Resolving c.Answer}
    (h : ∀ c, call c = step defs call c) (c : Call) : call c = run defs c := by
  induction c using (@Calls.wellFounded defs).induction with
  | _ c ih =>
    -- one step on both sides, after which only smaller calls are left
    rw [h c, run_eq_step]
    exact step_congr fun opened c' hcall => ih c' ⟨opened, hcall⟩

/-! ## What is expanded along a chain -/

namespace Calls

/-- What is being expanded stays so in the calls that are made. -/
theorem seen_subset (h : Calls defs c opened c') : ∀ k ∈ c.seen, k ∈ c'.seen := by
  cases h with
  | reference => exact fun k hk => List.mem_cons_of_mem _ hk
  | declaration => exact fun k hk => absurd hk List.not_mem_nil
  | _ => exact fun k hk => hk

/-- A call that expands a target expands a definition that was not being
expanded. -/
theorem opened_fresh (h : Calls defs c opened c') :
    opened.Nodup ∧ ∀ t ∈ opened, t ∈ c'.seen ∧ t ∉ c.seen ∧ t ∈ Entries.keys defs := by
  cases h with
  | @reference seen target description definition hseen hdef =>
    refine ⟨by simp, fun t ht => ?_⟩
    obtain rfl : t = target := List.mem_singleton.mp ht
    exact ⟨List.mem_cons_self, hseen, Entries.exists_lookup_iff.mp ⟨definition, hdef⟩⟩
  | _ => exact ⟨.nil, fun t ht => absurd ht List.not_mem_nil⟩

end Calls

namespace Chain

theorem seen_subset (h : Chain defs c targets c') : ∀ k ∈ c.seen, k ∈ c'.seen := by
  induction h with
  | start => exact fun k hk => hk
  | call _ hcall ih => exact fun k hk => hcall.seen_subset k (ih k hk)

/-- **Along a chain no target is expanded twice.** The targets are
definitions, and none of those that were being expanded at its start. -/
theorem targets_fresh (h : Chain defs c targets c') :
    targets.Nodup ∧ ∀ t ∈ targets, t ∈ c'.seen ∧ t ∉ c.seen ∧ t ∈ Entries.keys defs := by
  induction h with
  | start => exact ⟨.nil, fun t ht => absurd ht List.not_mem_nil⟩
  | call chain hcall ih =>
    obtain ⟨hnodup, hfresh⟩ := hcall.opened_fresh
    refine ⟨List.nodup_append.mpr ⟨hnodup, ih.1, ?_⟩, fun t ht => ?_⟩
    · -- what is opened now was not being expanded, and the earlier targets are
      rintro t ht _ htargets rfl
      exact (hfresh t ht).2.1 (ih.2 t htargets).1
    · rcases List.mem_append.mp ht with ht | ht
      · obtain ⟨hin, hnot, hkey⟩ := hfresh t ht
        exact ⟨hin, fun hc => hnot (chain.seen_subset t hc), hkey⟩
      · obtain ⟨hin, hnot, hkey⟩ := ih.2 t ht
        exact ⟨hcall.seen_subset t hin, hnot, hkey⟩

/-- A chain expands at most as many targets as there are definitions. -/
theorem length_le (h : Chain defs c targets c') : targets.length ≤ defs.length := by
  obtain ⟨hnodup, hfresh⟩ := h.targets_fresh
  have hsub : targets ⊆ Entries.keys defs := fun t ht => (hfresh t ht).2.2
  calc targets.length ≤ (Entries.keys defs).length := (List.subperm_of_subset hnodup hsub).length_le
    _ = defs.length := List.length_map _

end Chain

/-! ## Resolving ends -/

/-- **Resolving ends on every set of definitions.** The equations of
resolving a node, declaring a definition and declaring all of them have
one solution, which is the program. A call uses only the calls it may
make, and each of these has a smaller measure. On a chain of calls the
targets that are being expanded are different definitions, so there are at
most as many as definitions. Nothing is assumed of the definitions or of
the pass that a call starts from. -/
theorem resolving_ends (defs : Definitions) :
    (∀ call, (∀ c, call c = step defs call c) ↔ ∀ c, call c = run defs c) ∧
    (∀ call call' c, (∀ opened c', Calls defs c opened c' → call c' = call' c') →
      step defs call c = step defs call' c) ∧
    (∀ c opened c', Calls defs c opened c' →
      Prod.Lex (· < ·) (· < ·) (c'.measure defs) (c.measure defs)) ∧
    (WellFounded fun c' c => ∃ opened, Calls defs c opened c') ∧
    (∀ c targets c', Chain defs c targets c' → targets.Nodup ∧
      (∀ t ∈ targets, t ∈ Entries.keys defs ∧ t ∉ c.seen) ∧ targets.length ≤ defs.length) := by
  refine ⟨fun call => ⟨eq_run_of_eq_step, fun h c => ?_⟩, fun call call' c => step_congr,
    fun c opened c' h => h.measure_lt, Calls.wellFounded, fun c targets c' h => ?_⟩
  · rw [h c, run_eq_step, show call = run defs from funext h]
  · obtain ⟨hnodup, hfresh⟩ := h.targets_fresh
    exact ⟨hnodup, fun t ht => ⟨(hfresh t ht).2.2, (hfresh t ht).2.1⟩, h.length_le⟩

/-- Two definitions that are aliases of each other. -/
def aliases : Definitions := [("a", .reference "b" none), ("b", .reference "a" none)]

/-- Between the aliases the chain that follows both is as long as it can
be: at its end the reference closes the cycle and makes no call. -/
theorem aliases_end :
    (∀ c, run aliases c = step aliases (run aliases) c) ∧
    step aliases (run aliases) (.node ["b", "a"] (.reference "a" none)) =
      step aliases (fun _ => throw .bytesNotText) (.node ["b", "a"] (.reference "a" none)) ∧
    Prod.Lex (· < ·) (· < ·)
      (Call.measure aliases (.node ["b", "a"] (.reference "a" none)))
      (Call.measure aliases (.node ["a"] (.reference "b" none))) ∧
    Chain aliases (.node [] (.reference "a" none)) ["b", "a"]
      (.node ["b", "a"] (.reference "a" none)) ∧
    ["b", "a"].Nodup ∧ ["b", "a"].length ≤ aliases.length := by
  obtain ⟨hone, hlocal, hmeasure, -, hchain⟩ := resolving_ends aliases
  have hlast : Calls aliases (.node ["a"] (.reference "b" none)) ["b"]
      (.node ["b", "a"] (.reference "a" none)) := .reference (by decide) rfl
  have chain : Chain aliases (.node [] (.reference "a" none)) ["b", "a"]
      (.node ["b", "a"] (.reference "a" none)) :=
    .call (.call .start (.reference (by decide) rfl)) hlast
  obtain ⟨hnodup, -, hlength⟩ := hchain _ _ _ chain
  refine ⟨(hone _).mpr fun c => rfl, hlocal _ _ _ ?_, hmeasure _ _ _ hlast, chain, hnodup,
    hlength⟩
  intro opened c' hcall
  cases hcall with
  | reference hseen => exact absurd hseen (by decide)

end TypeScript

end ApiMock
