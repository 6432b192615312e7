import ApiMock.Log
import ApiMock.Proofs.Sequence
/-!
# Stateful — steps that can fail and change a state

A step that fails leaves the state as it is by then, and is the end of the
sequence it stands in. Behind one that succeeds the next starts from what
it left.

A run with messages goes on from the messages so far. What it can end with
is known from what its steps can end with, whatever was reported before
(`Logged.Ends`).
-/

namespace ApiMock

namespace Stateful

variable {σ α β : Type} {x : ExceptT Failure (StateM σ) α}
  {f : α → ExceptT Failure (StateM σ) β} {s t : σ}

/-- What comes after a value goes on with it, and with the state by then. -/
theorem run_bind_of_ok {a : α} (h : x.run.run s = (.ok a, t)) :
    (x >>= f).run.run s = (f a).run.run t := by
  change (x.run >>= ExceptT.bindCont f).run s = _
  rw [StateT.run_bind, h]
  rfl

/-- A step that fails is the end. -/
theorem run_bind_of_error {e : Failure} (h : x.run.run s = (.error e, t)) :
    (x >>= f).run.run s = (.error e, t) := by
  change (x.run >>= ExceptT.bindCont f).run s = _
  rw [StateT.run_bind, h]
  rfl

/-- A step that only gives an outcome leaves the state. -/
theorem run_lift {y : Except Failure α} :
    (liftM y : ExceptT Failure (StateM σ) α).run.run s = (y, s) := by
  cases y <;> rfl

/-- A step that starts by looking at the state goes on with it. -/
theorem run_get_bind {k : σ → ExceptT Failure (StateM σ) β} :
    (get >>= k).run.run s = (k s).run.run s := rfl

end Stateful

namespace Logged

open Stateful

variable {α β : Type} {x : Logged α} {f : α → Logged β} {handle : Failure → Logged α}
  {P : Failure → Prop} {Q : α → Prop} {R : β → Prop} {log later : List LogEntry}

/-- A run that does not stop is not caught. -/
theorem run_tryCatch_of_ok {a : α} (h : x.run.run log = (.ok a, later)) :
    (tryCatch x handle).run.run log = (.ok a, later) := by
  rw [show (tryCatch x handle : Logged α) = ExceptT.tryCatch x handle from rfl]
  change (x.run >>= _).run log = _
  rw [StateT.run_bind, h]
  rfl

/-- One that stops is, with the messages by then. -/
theorem run_tryCatch_of_error {e : Failure} (h : x.run.run log = (.error e, later)) :
    (tryCatch x handle).run.run log = (handle e).run.run later := by
  rw [show (tryCatch x handle : Logged α) = ExceptT.tryCatch x handle from rfl]
  change (x.run >>= _).run log = _
  rw [StateT.run_bind, h]
  rfl

/-- From any messages on the run fails only for causes that `P` allows, and what it gives
satisfies `Q`. -/
def Ends (P : Failure → Prop) (Q : α → Prop) (x : Logged α) : Prop :=
  ∀ log, Sequence.Ends P Q (x.run.run log).1

namespace Ends

theorem pure {a : α} (h : Q a) : Ends P Q (Pure.pure a) := fun _ => h

theorem lift {y : Except Failure α} (h : Sequence.Ends P Q y) : Ends P Q (liftM y : Logged α) :=
  fun _ => h

theorem report_bind {level : Level} {reporter : Reporter} {message : String}
    {f : Unit → Logged β} (h : Ends P R (f ())) : Ends P R (report level reporter message >>= f) :=
  fun log => by
    have hrun : (report level reporter message).run.run log =
        (.ok (), log ++ [⟨level, reporter, message⟩]) := rfl
    rw [run_bind_of_ok hrun]
    exact h _

theorem mono {S : α → Prop} {T : Failure → Prop} (h : Ends P Q x) (hP : ∀ f, P f → T f)
    (hQ : ∀ a, Q a → S a) : Ends T S x := fun log => (h log).mono hP hQ

theorem bind (h : Ends P Q x) (hf : ∀ a, Q a → Ends P R (f a)) : Ends P R (x >>= f) := by
  intro log
  have hx := h log
  rcases hrun : x.run.run log with ⟨e | a, later⟩
  · rw [hrun] at hx
    rw [run_bind_of_error hrun]
    exact hx
  · rw [hrun] at hx
    rw [run_bind_of_ok hrun]
    exact hf a hx later

end Ends

end Logged

end ApiMock
