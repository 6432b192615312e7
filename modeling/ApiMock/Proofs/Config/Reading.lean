import ApiMock.Config.Basic
import Mathlib.Data.List.Induction
/-!
# Config — settings that are read

A setting is read on its own: what its value becomes, and what it is refused for, is told by the
value alone, and no other setting is touched (`Setting.read_cases`). So named values give settings
if each of those given is accepted, with the defaults for the rest, and otherwise none at all and
the faults of all that are refused (`ofValues_cases`). A value that was read is read again as it is
(`Setting.validate_idem`).
-/

namespace ApiMock

namespace Coerce

/-! ## Values that are read again -/

variable {d : Data}

/-- A count is read again as it is. -/
theorem count_int (n : Nat) : count (.int n) = .ok n := by
  have hint : count (.int n) = if (n : Int) < 0 then .error negative else .ok n := rfl
  rw [hint, if_neg (by omega)]

/-- One of some words was that word. -/
theorem of_literal {choices : List String} {word : String}
    (h : literal choices d = .ok word) : d = .str word := by
  unfold literal at h
  split at h
  · split at h
    · cases h
    · split at h
      · cases h
        rfl
      · cases h
  · cases h

/-- A share is one as the number it was read as. -/
theorem share_float {x : Binary64} (h : share d = .ok x) :
    share (.scalar (.float x)) = .ok x := by
  rw [share] at h
  cases hx : float d with
  | error reason =>
    rw [hx] at h
    cases h
  | ok y =>
    rw [hx] at h
    -- the number is in its bounds, or it would have been refused
    have hbounds : (if y.below (Binary64.zero false) then .error negative
      else if y.below (Binary64.ofInt 1) || y.isInt 1 then .ok y
      else .error "Input should be less than or equal to 1") = Except.ok x := h
    have hsame : y = x := by
      split at hbounds
      · cases hbounds
      · split at hbounds
        · exact Except.ok.inj hbounds
        · cases hbounds
    rw [← hsame] at hbounds ⊢
    exact hbounds

end Coerce

namespace Config

variable {c : Config} {values others : List (String × Data)} {s t : Setting} {d v : Data}

namespace Setting

theorem mem_all (s : Setting) : s ∈ all := by
  cases s <;> decide

theorem nodup_all : all.Nodup := by
  decide

/-! ## One setting -/

/-- What a value becomes as that of a setting, if it is accepted. -/
def validate (s : Setting) (d : Data) : Except String Data :=
  (s.read d defaults).map fun c => c.value s

/-- What reading a value into a setting comes to. -/
inductive Read (s : Setting) (d : Data) (c : Config) : Except String Config → Prop where
  | accepted {v : Data} {c' : Config} (h : s.validate d = .ok v) (hvalue : c'.value s = v)
      (hothers : ∀ t, t ≠ s → c'.value t = c.value t) : Read s d c (.ok c')
  | refused {reason : String} (h : s.validate d = .error reason) : Read s d c (.error reason)

/-- A setting that is written from one field, as what that is read as. -/
theorem Read.of_write {α : Type} {x : Except String α} {write : α → Config → Config}
    (hread : ∀ c, s.read d c = do return write (← x) c)
    (hvalue : ∀ a c, (write a c).value s = (write a defaults).value s)
    (hothers : ∀ a c t, t ≠ s → (write a c).value t = c.value t) (c : Config) :
    Read s d c (s.read d c) := by
  cases x with
  | error reason =>
    rw [hread]
    exact .refused (by rw [validate, hread]; rfl)
  | ok a =>
    rw [hread]
    exact .accepted (by rw [validate, hread]; rfl) (hvalue a c) (hothers a c)

/-- **A value is read into its own setting**, and is refused, whatever the others are. -/
theorem read_cases (s : Setting) (d : Data) (c : Config) : Read s d c (s.read d c) := by
  cases s
  all_goals
    refine .of_write (fun _ => rfl) (fun _ _ => rfl) (fun _ _ t ht => ?_) c
    cases t <;> first | rfl | exact absurd rfl ht

/-- What was accepted was read into the field. -/
theorem of_write_ok {α : Type} {x : Except String α} {f : α → Config} {g : Config → Data}
    (h : (do return f (← x) : Except String Config).map g = .ok v) :
    ∃ a, x = .ok a ∧ v = g (f a) := by
  cases x with
  | error reason => cases h
  | ok a =>
    cases h
    exact ⟨a, rfl, rfl⟩

/-- **A value that was read is read again as it is.** -/
theorem validate_idem (h : s.validate d = .ok v) : s.validate v = .ok v := by
  cases s with
  | dbName =>
    obtain ⟨name, -, rfl⟩ := of_write_ok h
    rfl
  | responseDelay =>
    obtain ⟨n, -, rfl⟩ := of_write_ok h
    rw [validate, read, value, Coerce.count_int]
    rfl
  | outputFormat =>
    obtain ⟨word, hword, rfl⟩ := of_write_ok h
    rw [Coerce.of_literal hword] at h
    exact h
  | errorRate =>
    obtain ⟨x, hx, rfl⟩ := of_write_ok h
    rw [validate, read, value, Coerce.share_float hx]
    rfl
  | enableLogging | enableValidation | generateTests =>
    obtain ⟨b, -, rfl⟩ := of_write_ok h
    rfl

/-- **Every default is accepted**, as a value that is the same. -/
theorem validate_default (s : Setting) : ∃ v, s.validate (defaults.value s) = .ok v ∧
    v.sameKey (defaults.value s) = true := by
  cases s with
  | errorRate =>
    have hzero : Coerce.share (.int 0) = .ok (Binary64.zero false) := by decide +kernel
    refine ⟨.scalar (.float (Binary64.zero false)), ?_, by decide +kernel⟩
    rw [validate, read, value, defaults, hzero]
    rfl
  | responseDelay =>
    refine ⟨.int 200, ?_, by decide⟩
    rw [validate, read, value, Coerce.count_int]
    rfl
  | _ => exact ⟨_, rfl, by decide⟩

/-! ## Named values -/

/-- What a value is refused for that is given under a name. -/
def refusal? (s : Setting) (name : String) (d : Data) : Option FieldFault :=
  match s.validate d with
  | .ok _ => none
  | .error reason => some ⟨name, reason⟩

/-- The fault of a setting, if the value it is given is refused. -/
def fault? (s : Setting) (values : List (String × Data)) : Option FieldFault :=
  (s.given? values).bind fun g => s.refusal? g.1 g.2

/-- What a setting takes: what the value becomes that it is given, or the default. -/
inductive Takes (values : List (String × Data)) (s : Setting) : Data → Prop where
  | given {name : String} {d v : Data} (h : s.given? values = some (name, d))
      (hv : s.validate d = .ok v) : Takes values s v
  | missing (h : s.given? values = none) : Takes values s (defaults.value s)

theorem refusal?_eq_none_iff {name : String} :
    s.refusal? name d = none ↔ ∃ v, s.validate d = .ok v := by
  rw [refusal?]
  cases s.validate d <;> simp

end Setting

/-- A step adds the fault of its setting, or lets it take its value, and keeps the others. -/
theorem step_spec (values : List (String × Data)) {acc : Config × List FieldFault}
    (hfresh : acc.1.value s = defaults.value s) :
    (step values acc s).2 = acc.2 ++ (s.fault? values).toList ∧
      (s.fault? values = none → s.Takes values ((step values acc s).1.value s)) ∧
      ∀ t, t ≠ s → (step values acc s).1.value t = acc.1.value t := by
  rw [step, Setting.fault?]
  cases hgiven : s.given? values with
  | none => exact ⟨(List.append_nil _).symm, fun _ => hfresh ▸ .missing hgiven, fun _ _ => rfl⟩
  | some g =>
    obtain ⟨name, d⟩ := g
    have hread := s.read_cases d acc.1
    dsimp only
    rw [Option.bind_some, Setting.refusal?]
    generalize s.read d acc.1 = r at hread
    cases hread with
    | @accepted v c' hv hvalue hothers =>
      rw [hv]
      exact ⟨(List.append_nil _).symm, fun _ => .given hgiven (hvalue ▸ hv), hothers⟩
    | refused hv =>
      rw [hv]
      exact ⟨rfl, nofun, fun _ _ => rfl⟩

/-- How far the settings are read. -/
structure ReadUpTo (values : List (String × Data)) (ss : List Setting)
    (acc : Config × List FieldFault) : Prop where
  faults : acc.2 = ss.filterMap fun s => s.fault? values
  taken : ∀ s ∈ ss, s.fault? values = none → s.Takes values (acc.1.value s)
  others : ∀ s, s ∉ ss → acc.1.value s = defaults.value s

/-- **One more is read**, and the others stay as they are. -/
theorem ReadUpTo.step {ss : List Setting} {acc : Config × List FieldFault}
    (h : ReadUpTo values ss acc) (hs : s ∉ ss) :
    ReadUpTo values (ss ++ [s]) (Config.step values acc s) := by
  obtain ⟨hfaults, htakes, hothers⟩ := step_spec values (h.others s hs)
  refine ⟨?_, fun t ht hnone => ?_, fun t ht => ?_⟩
  · rw [hfaults, h.faults, List.filterMap_append]
    cases hfault : s.fault? values <;> simp [hfault]
  · rcases List.mem_append.mp ht with ht | ht
    · rw [hothers t fun heq => hs (heq ▸ ht)]
      exact h.taken t ht hnone
    · obtain rfl := List.mem_singleton.mp ht
      exact htakes hnone
  · rw [List.mem_append, List.mem_singleton, not_or] at ht
    rw [hothers t ht.2, h.others t ht.1]

/-- So all of them are. -/
theorem readUpTo (values : List (String × Data)) {ss : List Setting} (h : ss.Nodup) :
    ReadUpTo values ss (ss.foldl (step values) (defaults, [])) := by
  induction ss using List.reverseRecOn with
  | nil => exact ⟨rfl, by simp, fun _ _ => rfl⟩
  | append_singleton ss s ih =>
    rw [List.nodup_append] at h
    rw [List.foldl_append, List.foldl_cons, List.foldl_nil]
    exact (ih h.1).step fun hs => h.2.2 s hs s (by simp) rfl

/-- **Named values give settings, or the faults of all that are refused.** -/
theorem ofValues_cases (values : List (String × Data)) :
    (∃ c, ofValues values = .ok c ∧ ∀ s : Setting, s.Takes values (c.value s)) ∨
      (∃ s : Setting, s.fault? values ≠ none) ∧
        ofValues values = .error (.refused (Setting.all.filterMap fun s => s.fault? values)) := by
  have hread := readUpTo values Setting.nodup_all
  cases hfaults : Setting.all.filterMap fun s => s.fault? values with
  | nil =>
    refine .inl ⟨_, ?_, fun s => hread.taken s s.mem_all ?_⟩
    · rw [ofValues]
      dsimp only
      rw [hread.faults, hfaults]
      rfl
    · exact List.filterMap_eq_nil_iff.mp hfaults s s.mem_all
  | cons f rest =>
    obtain ⟨s, -, hs⟩ := List.mem_filterMap.mp (hfaults ▸ List.mem_cons_self)
    refine .inr ⟨⟨s, by simp [hs]⟩, ?_⟩
    rw [ofValues]
    dsimp only
    rw [hread.faults, hfaults]
    rfl

/-- What accepted values give. -/
theorem takes_of_ofValues (h : ofValues values = .ok c) (s : Setting) :
    s.Takes values (c.value s) := by
  rcases ofValues_cases values with ⟨c', hc', htakes⟩ | ⟨-, herror⟩
  · rw [h] at hc'
    rw [Except.ok.inj hc']
    exact htakes s
  · rw [h] at herror
    cases herror

/-- Only what each setting is given counts. -/
theorem ofValues_congr (h : ∀ s : Setting, s.given? values = s.given? others) :
    ofValues values = ofValues others := by
  have hstep : step values = step others := by
    funext acc s
    rw [step, step, h]
  rw [ofValues, ofValues, hstep]

end Config

end ApiMock
