import ApiMock.Proofs.Sequence
import ApiMock.Proofs.Stateful
import ApiMock.TypeScript.Resolve
/-!
# TypeScript — what a step of a pass gives

A step of a pass that starts from what was gathered so far has an outcome
and leaves what is gathered then. `Resolving.result` is the two together;
the lemmas below say what it is for each way a step is put together.

Two steps are alike if their outcomes match whatever was gathered before
either of them: both fail with one failure, or both give values that are
related. In particular neither of the outcomes depends on what was
gathered. Steps put together alike from alike steps are alike.
-/

namespace ApiMock

namespace TypeScript

namespace Resolving

variable {α β : Type} {p q : Pass}

/-- The outcome of a step from `p`, and what is gathered after it. -/
def result (x : Resolving α) (p : Pass) : Except Failure α × Pass := x.run.run p

@[simp] theorem result_pure {a : α} : (pure a : Resolving α).result p = (.ok a, p) := rfl

@[simp] theorem result_lift {x : Except Failure α} :
    (liftM x : Resolving α).result p = (x, p) :=
  Stateful.run_lift

/-- Behind a step that succeeds, the next one starts from what it left. -/
theorem result_bind_of_ok {x : Resolving α} {f : α → Resolving β} {a : α}
    (h : x.result p = (.ok a, q)) : (x >>= f).result p = (f a).result q :=
  Stateful.run_bind_of_ok h

/-- A step that fails is the end. -/
theorem result_bind_of_error {x : Resolving α} {f : α → Resolving β} {e : Failure}
    (h : x.result p = (.error e, q)) : (x >>= f).result p = (.error e, q) :=
  Stateful.run_bind_of_error h

/-- A sequence that succeeds went through both of its steps. -/
theorem of_result_bind_ok {x : Resolving α} {f : α → Resolving β} {b : β} {r : Pass}
    (h : (x >>= f).result p = (.ok b, r)) :
    ∃ a q, x.result p = (.ok a, q) ∧ (f a).result q = (.ok b, r) := by
  cases hx : x.result p with
  | mk o q =>
    cases o with
    | error e =>
      rw [result_bind_of_error hx] at h
      cases h
    | ok a =>
      rw [result_bind_of_ok hx] at h
      exact ⟨a, q, rfl, h⟩

theorem result_map {x : Resolving α} {f : α → β} {o : Except Failure α}
    (h : x.result p = (o, q)) : (f <$> x).result p = (f <$> o, q) := by
  rw [← bind_pure_comp]
  cases o with
  | error e => exact result_bind_of_error h
  | ok a => exact result_bind_of_ok h

/-- A list of steps that only lift outcomes is one of them. -/
theorem mapM_lift {f : α → Except Failure β} {xs : List α} :
    xs.mapM (fun x => (liftM (f x) : Resolving β)) = liftM (xs.mapM f) := by
  induction xs with
  | nil => rfl
  | cons x rest ih =>
    rw [List.mapM_cons, List.mapM_cons, ih]
    cases f x with
    | error e => rfl
    | ok y => cases rest.mapM f <;> rfl

/-- A list of steps whose values take another form. -/
theorem mapM_map_eq {ι κ : Type} {f : ι → Resolving α} {g : κ → Resolving β} {u : ι → κ} {v : α → β}
    {xs : List ι} (h : ∀ x ∈ xs, g (u x) = v <$> f x) :
    (xs.map u).mapM g = List.map v <$> xs.mapM f := by
  induction xs with
  | nil => rfl
  | cons x rest ih =>
    obtain ⟨hx, hrest⟩ := List.forall_mem_cons.mp h
    rw [List.map_cons, List.mapM_cons, List.mapM_cons, hx, ih hrest]
    simp only [map_eq_pure_bind, bind_assoc, pure_bind, List.map_cons]

/-- A loop of steps whose values take another form. -/
theorem foldlM_map_eq {ι κ : Type} {f : α → ι → Resolving α} {g : β → κ → Resolving β} {u : ι → κ}
    {v : α → β} {xs : List ι} {init : α} (h : ∀ x ∈ xs, ∀ a, g (v a) (u x) = v <$> f a x) :
    (xs.map u).foldlM g (v init) = v <$> xs.foldlM f init := by
  induction xs generalizing init with
  | nil => rfl
  | cons x rest ih =>
    obtain ⟨hx, hrest⟩ := List.forall_mem_cons.mp h
    rw [List.map_cons, List.foldlM_cons, List.foldlM_cons, hx, bind_map_left, map_bind]
    exact bind_congr fun a => ih hrest

/-! ## The operations of a pass -/

@[simp] theorem result_warn {reporter : Reporter} {message : String} :
    (warn reporter message).result p =
      (.ok (), { p with log := p.log ++ [⟨.warning, reporter, message⟩] }) := rfl

/-- Several warnings are added in order. -/
theorem result_forM_warn {reporter : Reporter} {messages : List String} :
    (messages.forM (warn reporter)).result p =
      (.ok (), { p with log := p.log ++ messages.map (⟨.warning, reporter, ·⟩) }) := by
  induction messages generalizing p with
  | nil =>
    rw [List.map_nil, List.append_nil]
    rfl
  | cons m rest ih =>
    have hcons : (m :: rest).forM (warn reporter) =
        warn reporter m >>= fun _ => rest.forM (warn reporter) := rfl
    rw [hcons, result_bind_of_ok result_warn, ih]
    simp

@[simp] theorem result_remember {name : String} {r : Resolution} :
    (remember name r).result p =
      (.ok (), { p with expansions := Entries.put name r p.expansions }) := rfl

@[simp] theorem result_expansionOf? {name : String} :
    (expansionOf? name).result p = (.ok (p.expansions.lookup name), p) := rfl

end Resolving

/-! ## Steps with like outcomes -/

open Resolving

/-- The same failure, or related values. -/
def Matches {α β : Type} (R : α → β → Prop) : Except Failure α → Except Failure β → Prop
  | .ok a, .ok b => R a b
  | .error e, .error f => e = f
  | _, _ => False

/-- The outcomes match from any two passes. -/
def Alike {α β : Type} (R : α → β → Prop) (x : Resolving α) (y : Resolving β) : Prop :=
  ∀ p q, Matches R (x.result p).1 (y.result q).1

/-- Outcomes that match up to equality are equal. -/
theorem eq_of_matches {α : Type} {o o' : Except Failure α} (h : Matches Eq o o') : o = o' := by
  cases o <;> cases o' <;> first | exact congrArg _ h | cases h

namespace Alike

variable {α β γ δ ι : Type} {R : α → β → Prop} {S : γ → δ → Prop} {x : Resolving α}
  {y : Resolving β}

/-- Equal outcomes, from any two passes. -/
theorem outcome_eq {x y : Resolving α} (h : Alike Eq x y) (p q : Pass) :
    (x.result p).1 = (y.result q).1 :=
  eq_of_matches (h p q)

theorem pure {a : α} {b : β} (h : R a b) : Alike R (pure a) (pure b) :=
  fun _ _ => h

/-- What is lifted does not look at the pass. -/
theorem lift (o : Except Failure α) : Alike Eq (liftM o) (liftM o) := by
  intro p q
  rw [result_lift, result_lift]
  cases o <;> exact rfl

/-- Warnings leave the outcome as it is. -/
theorem warnings (reporter : Reporter) (messages : List String) :
    Alike Eq (messages.forM (warn reporter)) (messages.forM (warn reporter)) := by
  intro p q
  rw [result_forM_warn, result_forM_warn]
  exact rfl

/-- Alike steps after alike steps are alike. -/
theorem bind {f : α → Resolving γ} {g : β → Resolving δ} (h : Alike R x y)
    (hfg : ∀ a b, R a b → Alike S (f a) (g b)) : Alike S (x >>= f) (y >>= g) := by
  intro p q
  have hm := h p q
  cases hx : x.result p with
  | mk o p' =>
    cases hy : y.result q with
    | mk o' q' =>
      rw [hx, hy] at hm
      cases o with
      | error e =>
        cases o' with
        | error e' =>
          rw [result_bind_of_error hx, result_bind_of_error hy]
          exact hm
        | ok b => exact hm.elim
      | ok a =>
        cases o' with
        | error e' => exact hm.elim
        | ok b =>
          rw [result_bind_of_ok hx, result_bind_of_ok hy]
          exact hfg a b hm p' q'

theorem map {f : α → γ} {g : β → δ} (h : Alike R x y) (hfg : ∀ a b, R a b → S (f a) (g b)) :
    Alike S (f <$> x) (g <$> y) := by
  rw [← bind_pure_comp, ← bind_pure_comp]
  exact h.bind fun a b hab => .pure (hfg a b hab)

/-- A list of alike steps. -/
theorem mapM {f g : ι → Resolving α} {xs : List ι} (h : ∀ x ∈ xs, Alike Eq (f x) (g x)) :
    Alike Eq (xs.mapM f) (xs.mapM g) := by
  induction xs with
  | nil => exact .pure rfl
  | cons x rest ih =>
    rw [List.mapM_cons, List.mapM_cons]
    refine (h x List.mem_cons_self).bind ?_
    rintro a _ rfl
    refine (ih fun y hy => h y (List.mem_cons_of_mem x hy)).bind ?_
    rintro as _ rfl
    exact .pure rfl

/-- A value that may be there, treated alike. -/
theorem option {f g : ι → Resolving α} {o : Option ι} (h : ∀ x ∈ o, Alike Eq (f x) (g x)) :
    Alike Eq (o.mapM f) (o.mapM g) := by
  cases o with
  | none => exact .pure rfl
  | some x => exact (h x rfl).map fun a b hab => congrArg some hab

/-- A loop of alike steps. -/
theorem foldlM {f g : α → ι → Resolving α} {xs : List ι} {init : α}
    (h : ∀ x ∈ xs, ∀ s, Alike Eq (f s x) (g s x)) :
    Alike Eq (xs.foldlM f init) (xs.foldlM g init) := by
  induction xs generalizing init with
  | nil => exact .pure rfl
  | cons x rest ih =>
    rw [List.foldlM_cons, List.foldlM_cons]
    refine (h x List.mem_cons_self init).bind ?_
    rintro s _ rfl
    exact ih fun y hy => h y (List.mem_cons_of_mem x hy)

end Alike

end TypeScript

end ApiMock
