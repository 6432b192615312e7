import ApiMock.Proofs.Yaml.Merging
import ApiMock.Yaml.Quoted
import ApiMock.Yaml.Scalar
import Mathlib.Data.Fintype.Pigeonhole
import Mathlib.Logic.Relation
/-!
# Yaml — what a scalar fails for

A scalar fails if its text is not what its tag says: no word for a truth
value, a number without digits or with too many, a day that no calendar has.
The failures are few (`ScalarFault`), and no scalar fails for another
cause (`Graph.scalar?_fails`). Going down value keys is never cut short:
it has no end exactly where it circles (`Graph.text_endless_iff`).
-/

namespace ApiMock

namespace Yaml

open Sequence Relation

/-- What a scalar fails for that is not what its tag says. -/
inductive ScalarFault : Failure → Prop where
  | form : ScalarFault .notYaml
  | word : ScalarFault .missingEntry
  | sign : ScalarFault .missingIndex
  | value {reason : String} : ScalarFault (.badValue reason)
  | range : ScalarFault .overflow
  | moment : ScalarFault .notText
  | mapping : ScalarFault .entriesNotText
  | loop : ScalarFault .endless

attribute [simp] ScalarFault.form ScalarFault.word ScalarFault.sign ScalarFault.value
  ScalarFault.range ScalarFault.moment ScalarFault.mapping ScalarFault.loop

theorem ofCode_fault {n : Nat} : FailsOnly ScalarFault (Quoted.ofCode n) := by
  simp [Quoted.ofCode]

theorem truth_fails {word : String} : FailsOnly ScalarFault (truth word) := by
  rw [truth]
  split <;> simp

theorem bytes_fails {s : String} : FailsOnly ScalarFault (bytes s) := by
  rw [bytes]
  split
  · split <;> simp
  · simp

namespace Numeral

variable {cs : List Char}

theorem whole_fails {base : Nat} : FailsOnly ScalarFault (whole base cs) := by
  unfold whole
  dsimp only
  split
  · simp
  · split <;> simp

theorem sign_fails : FailsOnly ScalarFault (sign cs) := by
  unfold sign
  split <;> simp

theorem unsignedInt_fails : FailsOnly ScalarFault (unsignedInt cs) := by
  unfold unsignedInt
  split
  · simp
  · simp
  · exact whole_fails
  · exact whole_fails
  · exact whole_fails
  · split
    · rw [failsOnly_bind]
      exact ⟨failsOnly_mapM fun _ _ => whole_fails, fun _ _ => failsOnly_pure⟩
    · exact whole_fails

theorem int_fails {text : String} : FailsOnly ScalarFault (int text) := by
  simp [int, sign_fails, unsignedInt_fails]

theorem real_fails : FailsOnly ScalarFault (real cs) := by
  rw [real]
  split <;> simp

theorem sumOfSixtieths_fails {power : Nat} {sum : Binary64} {digits : List Binary64} :
    FailsOnly ScalarFault (sumOfSixtieths power sum digits) := by
  induction digits generalizing power sum with
  | nil => simp [sumOfSixtieths]
  | cons d rest ih =>
    unfold sumOfSixtieths
    dsimp only
    split
    · exact ih
    · simp

theorem unsignedFloat_fails : FailsOnly ScalarFault (unsignedFloat cs) := by
  rw [unsignedFloat]
  split
  · simp
  · split
    · simp
    · split
      · rw [failsOnly_bind]
        exact ⟨failsOnly_mapM fun _ _ => real_fails, fun _ _ => sumOfSixtieths_fails⟩
      · exact real_fails

theorem float_fails {serial : Nat} {text : String} : FailsOnly ScalarFault (float serial text) := by
  simp [float, sign_fails, unsignedFloat_fails]

end Numeral

namespace Moment

theorem mapError_badValue_fails {α : Type} {x : Except String α} :
    FailsOnly ScalarFault (x.mapError .badValue) := by
  cases x with
  | error reason => exact failsOnly_error.mpr .value
  | ok a => exact failsOnly_ok

theorem zoneMinutes_fails {z : WrittenZone} : FailsOnly ScalarFault (zoneMinutes z) := by
  unfold zoneMinutes
  split
  · simp
  · dsimp only
    split <;> simp

theorem value_fails {m : Moment} : FailsOnly ScalarFault m.value := by
  rw [value]
  split
  · rw [failsOnly_bind]
    exact ⟨mapError_badValue_fails, fun _ _ => failsOnly_pure⟩
  · rename_i t _
    have hzone : FailsOnly ScalarFault (t.zone.mapM zoneMinutes) := by
      cases t.zone with
      | none => exact failsOnly_pure
      | some z => exact failsOnly_map.mpr zoneMinutes_fails
    rw [failsOnly_bind]
    refine ⟨hzone, fun _ _ => ?_⟩
    rw [failsOnly_bind]
    exact ⟨mapError_badValue_fails, fun _ _ => failsOnly_pure⟩

end Moment

namespace Graph

variable {g : Graph} {n m : NodeId}

theorem textWithin_fails {steps : Nat} : FailsOnly ScalarFault (g.textWithin steps n) := by
  induction steps generalizing n with
  | zero => simp [textWithin]
  | succ steps ih =>
    rw [textWithin]
    split
    · simp
    · simp
    · split
      · exact ih
      · simp

theorem text_fails : FailsOnly ScalarFault (g.text n) := textWithin_fails

theorem moment_fails : FailsOnly ScalarFault (g.moment n) := by
  rw [moment, failsOnly_bind]
  refine ⟨text_fails, fun _ _ => ?_⟩
  split
  · split
    · exact Moment.value_fails
    · simp
  · simp

theorem scalar?_fails : FailsOnly ScalarFault (g.scalar? n) := by
  rw [scalar?]
  split <;> simp [text_fails, truth_fails, Numeral.int_fails, Numeral.float_fails, bytes_fails,
    moment_fails]

/-! ## Value keys -/

/-- A mapping stands for what is under its first value key. -/
def StandsFor (g : Graph) (n m : NodeId) : Prop :=
  ∃ es, g.content n = .mapping es ∧ g.underValueKey? es = some m

/-- Going down value keys comes to a node that stands for itself. -/
def Circles (g : Graph) (n : NodeId) : Prop :=
  ∃ m, ReflTransGen g.StandsFor n m ∧ TransGen g.StandsFor m m

theorem StandsFor.lt_size (h : g.StandsFor n m) : n < g.size := by
  obtain ⟨es, hc, -⟩ := h
  exact lt_size_of_isMapping (by rw [isMapping, hc])

/-- If steps run out, each of them went down a value key. -/
theorem chain_of_textWithin {steps : Nat} (h : g.textWithin steps n = .error .endless) :
    ∃ c : Nat → NodeId, c 0 = n ∧ ∀ i < steps, g.StandsFor (c i) (c (i + 1)) := by
  induction steps generalizing n with
  | zero => exact ⟨fun _ => n, rfl, by simp⟩
  | succ steps ih =>
    rw [textWithin] at h
    split at h
    · cases h
    · cases h
    · rename_i es hc
      split at h
      · rename_i value hvalue
        obtain ⟨c, hzero, hc'⟩ := ih h
        refine ⟨fun i => if i = 0 then n else c (i - 1), rfl, fun i hi => ?_⟩
        cases i with
        | zero => exact ⟨es, hc, by simpa [hzero] using hvalue⟩
        | succ i => exact hc' i (by omega)
      · cases h

theorem reaches_of_chain {c : Nat → NodeId} {steps : Nat}
    (hc : ∀ i < steps, g.StandsFor (c i) (c (i + 1))) {i k : Nat} (hk : i + k ≤ steps) :
    ReflTransGen g.StandsFor (c i) (c (i + k)) := by
  induction k with
  | zero => exact .refl
  | succ k ih => exact (ih (by omega)).tail (hc (i + k) (by omega))

/-- Where going down value keys circles, the next node circles as well. -/
theorem Circles.next (h : g.Circles n) : ∃ m, g.StandsFor n m ∧ g.Circles m := by
  obtain ⟨m, hreach, hloop⟩ := h
  rcases hreach.cases_head with rfl | ⟨k, hk, hreach⟩
  · obtain ⟨k, hk, hback⟩ := TransGen.head'_iff.mp hloop
    exact ⟨k, hk, n, hback, hloop⟩
  · exact ⟨k, hk, m, hreach, hloop⟩

/-- **Going down value keys has no end exactly where it circles**: one step more than there
are nodes is enough to tell. -/
theorem text_endless_iff : g.text n = .error .endless ↔ g.Circles n := by
  constructor
  · intro h
    obtain ⟨c, rfl, hc⟩ := chain_of_textWithin h
    obtain ⟨i, j, hne, heq⟩ := Fintype.exists_ne_map_eq_of_card_lt
      (fun i : Fin (g.size + 1) => (⟨c i, (hc i i.isLt).lt_size⟩ : Fin g.size)) (by simp)
    replace heq : c i = c j := congrArg Fin.val heq
    -- the node that comes up twice stands for itself
    wlog hlt : i < j generalizing i j
    · exact this j i hne.symm heq.symm (lt_of_le_of_ne (not_lt.mp hlt) hne.symm)
    have hlt : i.val < j.val := hlt
    have hback := reaches_of_chain hc (i := i + 1) (k := j - (i + 1)) (by omega)
    rw [show i.val + 1 + (j.val - (i.val + 1)) = j.val by omega, ← heq] at hback
    have hstart := reaches_of_chain hc (i := 0) (k := i) (by omega)
    rw [Nat.zero_add] at hstart
    exact ⟨c i, hstart, .head' (hc i (by omega)) hback⟩
  · intro h
    rw [text]
    -- no number of steps is enough, since there is always a next one
    generalize g.size + 1 = steps
    induction steps generalizing n with
    | zero => rfl
    | succ steps ih =>
      obtain ⟨m, ⟨es, hc, hvalue⟩, hcircles⟩ := h.next
      rw [textWithin, hc]
      dsimp only
      rw [hvalue]
      exact ih hcircles

end Graph

end Yaml

end ApiMock
