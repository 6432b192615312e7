import ApiMock.Failure
import Mathlib.Data.List.Forall2
/-!
# Sequence — steps that can fail, one after the other

A sequence of steps ends at the first that fails. What it gives is known
from what its steps give, and what it can fail for from what its steps can
fail for. Of two lists that are related element by element, every element of
one stands beside one of the other.
-/

namespace ApiMock

namespace Sequence

variable {α β γ : Type}

/-- What comes after a step that succeeded was reached through its value. -/
theorem of_bind_ok {x : Except Failure α} {f : α → Except Failure β} {b : β}
    (h : x >>= f = .ok b) : ∃ a, x = .ok a ∧ f a = .ok b := by
  cases x with
  | error e => cases h
  | ok a => exact ⟨a, rfl, h⟩

/-- A step that failed failed at once, or for what comes after its value. -/
theorem of_bind_error {x : Except Failure α} {f : α → Except Failure β} {e : Failure}
    (h : x >>= f = .error e) : x = .error e ∨ ∃ a, x = .ok a ∧ f a = .error e := by
  cases x with
  | error e' =>
    cases h
    exact .inl rfl
  | ok a => exact .inr ⟨a, rfl, h⟩

/-- A value that was mapped comes from a value. -/
theorem of_map_ok {x : Except Failure α} {f : α → β} {b : β} (h : f <$> x = .ok b) :
    ∃ a, x = .ok a ∧ f a = b := by
  cases x with
  | error e => cases h
  | ok a =>
    cases h
    exact ⟨a, rfl, rfl⟩

/-- What a successful step is asked for afterwards is known from its value. -/
theorem of_toOption_bind {x : Except Failure α} {f : α → Option β} {b : β}
    (h : x.toOption.bind f = some b) : ∃ a, x = .ok a ∧ f a = some b := by
  cases x with
  | error e => cases h
  | ok a => exact ⟨a, rfl, h⟩

/-- The same for what a successful step always gives. -/
theorem of_toOption_map {x : Except Failure α} {f : α → β} {b : β}
    (h : x.toOption.map f = some b) : ∃ a, x = .ok a ∧ f a = b := by
  cases x with
  | error e => cases h
  | ok a =>
    cases h
    exact ⟨a, rfl, rfl⟩

/-- A list of steps of which each succeeds, succeeds. -/
theorem mapM_isOk {f : α → Except Failure β} {xs : List α} (h : ∀ x ∈ xs, ∃ y, f x = .ok y) :
    ∃ ys, xs.mapM f = .ok ys := by
  induction xs with
  | nil => exact ⟨[], rfl⟩
  | cons x rest ih =>
    obtain ⟨y, hy⟩ := h x List.mem_cons_self
    obtain ⟨ys, hys⟩ := ih fun z hz => h z (List.mem_cons_of_mem x hz)
    exact ⟨y :: ys, by rw [List.mapM_cons, hy, hys]; rfl⟩

/-- If a list of steps succeeds, each of them does. -/
theorem isOk_of_mapM {f : α → Except Failure β} {xs : List α} {ys : List β}
    (h : xs.mapM f = .ok ys) : ∀ x ∈ xs, ∃ y, f x = .ok y := by
  induction xs generalizing ys with
  | nil => simp
  | cons x rest ih =>
    rw [List.mapM_cons] at h
    obtain ⟨y, hy, h⟩ := of_bind_ok h
    obtain ⟨ys', hys, -⟩ := of_bind_ok h
    rintro z (_ | ⟨_, hz⟩)
    · exact ⟨y, hy⟩
    · exact ih hys z hz

/-- If a list of steps fails, one of them does. -/
theorem exists_of_mapM_error {f : α → Except Failure β} {xs : List α} {e : Failure}
    (h : xs.mapM f = .error e) : ∃ x ∈ xs, f x = .error e := by
  induction xs with
  | nil => cases h
  | cons x rest ih =>
    rw [List.mapM_cons] at h
    cases hx : f x with
    | error e' =>
      rw [hx] at h
      cases h
      exact ⟨x, List.mem_cons_self, hx⟩
    | ok y =>
      cases hrest : rest.mapM f with
      | error e' =>
        rw [hx, hrest] at h
        cases h
        obtain ⟨z, hz, hfz⟩ := ih hrest
        exact ⟨z, List.mem_cons_of_mem x hz, hfz⟩
      | ok ys =>
        rw [hx, hrest] at h
        cases h

/-- What a list of steps gives, each of them gave. -/
theorem exists_of_mem_mapM {f : α → Except Failure β} {xs : List α} {ys : List β}
    (h : xs.mapM f = .ok ys) : ∀ y ∈ ys, ∃ x ∈ xs, f x = .ok y := by
  induction xs generalizing ys with
  | nil =>
    cases h
    simp
  | cons x rest ih =>
    rw [List.mapM_cons] at h
    obtain ⟨y, hy, h⟩ := of_bind_ok h
    obtain ⟨ys', hys, h⟩ := of_bind_ok h
    cases h
    rintro z (_ | ⟨_, hz⟩)
    · exact ⟨x, List.mem_cons_self, hy⟩
    · obtain ⟨w, hw, hf⟩ := ih hys z hz
      exact ⟨w, List.mem_cons_of_mem x hw, hf⟩

/-- What a list of steps gives stands beside what it is given for. -/
theorem forall₂_of_mapM {f : α → Except Failure β} {xs : List α} {ys : List β}
    (h : xs.mapM f = .ok ys) : List.Forall₂ (fun x y => f x = .ok y) xs ys := by
  induction xs generalizing ys with
  | nil =>
    cases h
    exact .nil
  | cons x rest ih =>
    rw [List.mapM_cons] at h
    obtain ⟨y, hy, h⟩ := of_bind_ok h
    obtain ⟨ys', hys, h⟩ := of_bind_ok h
    cases h
    exact .cons hy (ih hys)

/-- What every step keeps holds behind all of them. -/
theorem of_foldlM_ok {f : β → α → Except Failure β} {Q : β → Prop} {xs : List α} {init last : β}
    (hinit : Q init) (hstep : ∀ x ∈ xs, ∀ acc next, Q acc → f acc x = .ok next → Q next)
    (h : xs.foldlM f init = .ok last) : Q last := by
  induction xs generalizing init with
  | nil =>
    cases h
    exact hinit
  | cons x rest ih =>
    rw [List.foldlM_cons] at h
    obtain ⟨next, hnext, h⟩ := of_bind_ok h
    have hkept : Q next := hstep x List.mem_cons_self init next hinit hnext
    exact ih hkept (fun y hy => hstep y (List.mem_cons_of_mem x hy)) h

/-! ## Steps that succeed -/

/-- What comes after a value starts from it. -/
@[simp] theorem ok_bind (a : α) (f : α → Except Failure β) : (.ok a >>= f) = f a := rfl

/-- The step succeeds, and what it gives satisfies `P`. -/
def Gives (x : Except Failure α) (P : α → Prop) : Prop :=
  ∃ a, x = .ok a ∧ P a

namespace Gives

variable {P : α → Prop} {Q : β → Prop}

theorem pure {a : α} (h : P a) : Gives (.ok a) P :=
  ⟨a, rfl, h⟩

theorem mono {P' : α → Prop} {x : Except Failure α} (h : Gives x P) (hP : ∀ a, P a → P' a) :
    Gives x P' :=
  h.imp fun a h => ⟨h.1, hP a h.2⟩

theorem bind {x : Except Failure α} {f : α → Except Failure β} (h : Gives x P)
    (hf : ∀ a, P a → Gives (f a) Q) : Gives (x >>= f) Q := by
  obtain ⟨a, rfl, ha⟩ := h
  exact hf a ha

theorem map {x : Except Failure α} {f : α → β} (h : Gives x P) (hf : ∀ a, P a → Q (f a)) :
    Gives (f <$> x) Q := by
  obtain ⟨a, rfl, ha⟩ := h
  exact ⟨f a, rfl, hf a ha⟩

/-- Steps for the elements of a list. -/
theorem mapM {f : α → Except Failure β} {R : α → β → Prop} {xs : List α}
    (h : ∀ x ∈ xs, Gives (f x) (R x)) : Gives (xs.mapM f) (List.Forall₂ R xs) := by
  induction xs with
  | nil => exact ⟨[], rfl, .nil⟩
  | cons x rest ih =>
    rw [List.mapM_cons]
    refine (h x List.mem_cons_self).bind fun y hy => ?_
    exact (ih fun z hz => h z (List.mem_cons_of_mem x hz)).bind fun ys hys => pure (.cons hy hys)

/-- The same where what each gives does not depend on the element. -/
theorem mapM_forall {f : α → Except Failure β} {xs : List α} (h : ∀ x ∈ xs, Gives (f x) Q) :
    Gives (xs.mapM f) fun ys => ∀ y ∈ ys, Q y := by
  obtain ⟨ys, hys⟩ := mapM_isOk fun x hx => (h x hx).imp fun _ h => h.1
  refine ⟨ys, hys, fun y hy => ?_⟩
  obtain ⟨x, hx, hfx⟩ := exists_of_mem_mapM hys y hy
  obtain ⟨y', hy', hq⟩ := h x hx
  exact Except.ok.inj (hy'.symm.trans hfx) ▸ hq

/-- Steps that go on from each other keep what each of them keeps. -/
theorem foldlM {f : β → α → Except Failure β} {xs : List α} {init : β} (hinit : Q init)
    (h : ∀ x ∈ xs, ∀ acc, Q acc → Gives (f acc x) Q) : Gives (xs.foldlM f init) Q := by
  induction xs generalizing init with
  | nil => exact ⟨init, rfl, hinit⟩
  | cons x rest ih =>
    rw [List.foldlM_cons]
    exact (h x List.mem_cons_self init hinit).bind fun acc hacc =>
      ih hacc fun z hz => h z (List.mem_cons_of_mem x hz)

end Gives

/-! ## Steps that fail for certain causes -/

section Causes

variable {P P' : Failure → Prop} {Q Q' : α → Prop} {R : β → Prop}

/-- The step fails only for causes that `P` allows. -/
def FailsOnly (P : Failure → Prop) (x : Except Failure α) : Prop :=
  ∀ f, x = .error f → P f

@[simp] theorem failsOnly_ok {a : α} : FailsOnly P (.ok a) := nofun

@[simp] theorem failsOnly_pure {a : α} : FailsOnly P (pure a) := failsOnly_ok

@[simp] theorem failsOnly_error {f : Failure} : FailsOnly P (.error f : Except Failure α) ↔ P f := by
  constructor
  · intro h
    exact h f rfl
  · rintro h g ⟨⟩
    exact h

@[simp] theorem failsOnly_throw {f : Failure} : FailsOnly P (throw f : Except Failure α) ↔ P f :=
  failsOnly_error

@[simp] theorem failsOnly_bind {x : Except Failure α} {f : α → Except Failure β} :
    FailsOnly P (x >>= f) ↔ FailsOnly P x ∧ ∀ a, x = .ok a → FailsOnly P (f a) := by
  cases x with
  | error e => simp [FailsOnly, bind, Except.bind]
  | ok a => simp [FailsOnly, bind, Except.bind]

@[simp] theorem failsOnly_map {x : Except Failure α} {f : α → β} :
    FailsOnly P (f <$> x) ↔ FailsOnly P x := by
  cases x with
  | error e => simp [FailsOnly, Functor.map, Except.map]
  | ok a => simp [FailsOnly, Functor.map, Except.map]

@[simp] theorem failsOnly_ite {c : Prop} [Decidable c] {x y : Except Failure α} :
    FailsOnly P (if c then x else y) ↔ (c → FailsOnly P x) ∧ (¬ c → FailsOnly P y) := by
  split <;> simp_all

theorem failsOnly_mapM {f : α → Except Failure β} {xs : List α}
    (h : ∀ x ∈ xs, FailsOnly P (f x)) : FailsOnly P (xs.mapM f) := by
  intro e he
  obtain ⟨x, hx, hfx⟩ := exists_of_mapM_error he
  exact h x hx e hfx

/-- The step fails only for causes that `P` allows, and what it gives satisfies `Q`. -/
def Ends (P : Failure → Prop) (Q : α → Prop) : Except Failure α → Prop
  | .ok a => Q a
  | .error f => P f

@[simp] theorem ends_ok {a : α} : Ends P Q (.ok a) ↔ Q a := Iff.rfl

@[simp] theorem ends_error {f : Failure} : Ends P Q (.error f) ↔ P f := Iff.rfl

theorem Ends.mono {x : Except Failure α} (h : Ends P Q x) (hP : ∀ f, P f → P' f)
    (hQ : ∀ a, Q a → Q' a) : Ends P' Q' x := by
  cases x with
  | error f => exact hP f h
  | ok a => exact hQ a h

theorem Ends.bind {x : Except Failure α} {f : α → Except Failure β} (h : Ends P Q x)
    (hf : ∀ a, Q a → Ends P R (f a)) : Ends P R (x >>= f) := by
  cases x with
  | error f => exact h
  | ok a => exact hf a h

theorem Ends.ite {c : Prop} [Decidable c] {x y : Except Failure α} (hx : Ends P Q x)
    (hy : Ends P Q y) : Ends P Q (if c then x else y) := by
  split
  · exact hx
  · exact hy

/-- What comes after a step of which only the causes are known. -/
theorem FailsOnly.bind {x : Except Failure α} {f : α → Except Failure β} (h : FailsOnly P x)
    (hf : ∀ a, x = .ok a → Ends P R (f a)) : Ends P R (x >>= f) := by
  cases x with
  | error f => exact h f rfl
  | ok a => exact hf a rfl

end Causes

/-! ## Lists side by side -/

variable {R : α → β → Prop} {xs : List α} {ys : List β}

/-- Every element on the left has one beside it. -/
theorem exists_beside_left (h : List.Forall₂ R xs ys) {x : α} (hx : x ∈ xs) :
    ∃ y, (x, y) ∈ xs.zip ys := by
  induction h with
  | nil => cases hx
  | cons _ _ ih =>
    rcases List.mem_cons.mp hx with rfl | hx
    · exact ⟨_, List.mem_cons_self⟩
    · obtain ⟨y, hy⟩ := ih hx
      exact ⟨y, List.mem_cons_of_mem _ hy⟩

/-- And so has every element on the right. -/
theorem exists_beside_right (h : List.Forall₂ R xs ys) {y : β} (hy : y ∈ ys) :
    ∃ x, (x, y) ∈ xs.zip ys := by
  induction h with
  | nil => cases hy
  | cons _ _ ih =>
    rcases List.mem_cons.mp hy with rfl | hy
    · exact ⟨_, List.mem_cons_self⟩
    · obtain ⟨x, hx⟩ := ih hy
      exact ⟨x, List.mem_cons_of_mem _ hx⟩

/-- So an element on the left is related to one on the right. -/
theorem exists_of_mem_left (h : List.Forall₂ R xs ys) {x : α} (hx : x ∈ xs) : ∃ y ∈ ys, R x y := by
  obtain ⟨y, hplace⟩ := exists_beside_left h hx
  exact ⟨y, (List.of_mem_zip hplace).2, List.forall₂_zip h hplace⟩

/-- And one on the right to one on the left. -/
theorem exists_of_mem_right (h : List.Forall₂ R xs ys) {y : β} (hy : y ∈ ys) : ∃ x ∈ xs, R x y := by
  obtain ⟨x, hplace⟩ := exists_beside_right h hy
  exact ⟨x, (List.of_mem_zip hplace).1, List.forall₂_zip h hplace⟩

/-- Where the list on the left is taken apart, so is the one on the right. -/
theorem exists_split {x : α} {later : List α} (h : List.Forall₂ R (xs ++ x :: later) ys) :
    ∃ before y after, ys = before ++ y :: after ∧ List.Forall₂ R xs before ∧ R x y ∧
      List.Forall₂ R later after := by
  induction xs generalizing ys with
  | nil =>
    obtain ⟨y, after, hxy, hafter, rfl⟩ := List.forall₂_cons_left_iff.mp h
    exact ⟨[], y, after, rfl, .nil, hxy, hafter⟩
  | cons z rest ih =>
    obtain ⟨w, ws, hzw, hws, rfl⟩ := List.forall₂_cons_left_iff.mp h
    obtain ⟨before, y, after, rfl, hbefore, hxy, hafter⟩ := ih hws
    exact ⟨w :: before, y, after, rfl, .cons hzw hbefore, hxy, hafter⟩

/-- What the elements beside each other have in common, the lists have. -/
theorem map_eq_map {f : α → γ} {g : β → γ} (h : List.Forall₂ R xs ys)
    (hR : ∀ x y, R x y → f x = g y) : xs.map f = ys.map g := by
  induction h with
  | nil => rfl
  | cons hxy _ ih => rw [List.map_cons, List.map_cons, hR _ _ hxy, ih]

/-- So have the steps for them. -/
theorem mapM_eq_mapM {f : α → Except Failure γ} {g : β → Except Failure γ}
    (h : List.Forall₂ R xs ys) (hR : ∀ x y, R x y → f x = g y) : xs.mapM f = ys.mapM g := by
  induction h with
  | nil => rfl
  | cons hxy _ ih => rw [List.mapM_cons, List.mapM_cons, hR _ _ hxy, ih]

/-- And those that go on from each other. -/
theorem foldlM_eq_foldlM {f : γ → α → Except Failure γ} {g : γ → β → Except Failure γ} {init : γ}
    (h : List.Forall₂ R xs ys) (hR : ∀ x y, R x y → ∀ acc, f acc x = g acc y) :
    xs.foldlM f init = ys.foldlM g init := by
  induction h generalizing init with
  | nil => rfl
  | cons hxy _ ih =>
    rw [List.foldlM_cons, List.foldlM_cons, hR _ _ hxy init]
    exact bind_congr fun acc => ih

/-- What parts and a separator have, and what is kept by putting one behind the other, the parts
have with the separator in between. -/
theorem intercalate_closed {P : List γ → Prop} {sep : List γ} {parts : List (List γ)}
    (nil : P []) (append : ∀ xs ys, P xs → P ys → P (xs ++ ys)) (hsep : P sep)
    (h : ∀ part ∈ parts, P part) : P (List.intercalate sep parts) := by
  induction parts with
  | nil => exact nil
  | cons part parts ih =>
    obtain ⟨hpart, hparts⟩ := List.forall_mem_cons.mp h
    cases parts with
    | nil =>
      rw [List.intercalate_singleton]
      exact hpart
    | cons next parts =>
      rw [List.intercalate_cons_cons]
      exact append _ _ (append _ _ hpart hsep) (ih hparts)

/-- Parts with a separator in between have what the last has on its own and what each gains in
front of the others. -/
theorem of_intercalate {sep : List γ} {P : α → List γ → Prop} {Q : List α → List γ → Prop}
    {items : List α} {parts : List (List γ)} (last : ∀ x part, P x part → Q [x] part)
    (more : ∀ x xs part rest, P x part → Q xs rest → Q (x :: xs) (part ++ (sep ++ rest)))
    (h : List.Forall₂ P items parts) (hne : items ≠ []) :
    Q items (List.intercalate sep parts) := by
  induction h with
  | nil => exact absurd rfl hne
  | @cons x part items parts hpart hparts ih =>
    cases hparts with
    | nil =>
      rw [List.intercalate_singleton]
      exact last x part hpart
    | cons _ _ =>
      rw [List.intercalate_cons_cons, List.append_assoc]
      exact more _ _ _ _ hpart (ih (List.cons_ne_nil _ _))

/-- Replacing characters goes through parts with a separator in between. -/
theorem flatMap_intercalate {f : γ → List γ} {sep : List γ} {parts : List (List γ)} :
    (List.intercalate sep parts).flatMap f =
      List.intercalate (sep.flatMap f) (parts.map (·.flatMap f)) := by
  induction parts with
  | nil => rfl
  | cons part parts ih =>
    cases parts with
    | nil => rw [List.map_cons, List.map_nil, List.intercalate_singleton, List.intercalate_singleton]
    | cons next parts =>
      rw [List.map_cons] at ih ⊢
      rw [List.map_cons, List.intercalate_cons_cons, List.flatMap_append, List.flatMap_append, ih,
        List.intercalate_cons_cons]

end Sequence

end ApiMock
