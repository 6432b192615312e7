import ApiMock.Proofs.Blueprint.Responses
/-!
# Route — statuses

The status of success of a route is the number that the first response
writes whose status starts with a two and has only digits; that of an error
goes by a four. Digits of every script count, and so do figures that have no
place value: with one of those, or with more digits than a number may have,
an operation has no route. A route has a status of its range exactly if that
response writes three digits or is missing (`classify_statuses`).
-/

namespace ApiMock

open Sequence

namespace Text

variable {c : Char} {cs : List Char}

/-- A digit has a value below ten. -/
theorem digitValue?_lt {d : Nat} (h : digitValue? c = some d) : d < 10 := by
  obtain ⟨first, hfirst, rfl⟩ := Option.map_eq_some_iff.mp h
  have hrange := List.find?_some hfirst
  rw [Bool.and_eq_true, decide_eq_true_iff, decide_eq_true_iff] at hrange
  omega

/-- Digits behind a number write its multiple by a power of ten, and less than that power more. -/
theorem foldlM_digits (hdigits : ∀ c ∈ cs, (digitValue? c).isSome) (n : Nat) :
    ∃ k < 10 ^ cs.length,
      cs.foldlM (fun n c => (digitValue? c).map (10 * n + ·)) n =
        some (10 ^ cs.length * n + k) := by
  induction cs generalizing n with
  | nil => exact ⟨0, Nat.one_pos, by simp⟩
  | cons c rest ih =>
    obtain ⟨hc, hrest⟩ := List.forall_mem_cons.mp hdigits
    obtain ⟨d, hd⟩ := Option.isSome_iff_exists.mp hc
    obtain ⟨k, hk, hread⟩ := ih hrest (10 * n + d)
    have hlt := digitValue?_lt hd
    have hstep : 10 ^ rest.length * d + k < 10 ^ (c :: rest).length := by
      rw [List.length_cons, Nat.pow_succ]
      calc 10 ^ rest.length * d + k < 10 ^ rest.length * d + 10 ^ rest.length := by omega
        _ = 10 ^ rest.length * (d + 1) := by rw [Nat.mul_succ]
        _ ≤ 10 ^ rest.length * 10 := Nat.mul_le_mul_left _ (by omega)
    refine ⟨10 ^ rest.length * d + k, hstep, ?_⟩
    rw [List.foldlM_cons, hd, Option.map_some, Option.bind_eq_bind, Option.bind_some, hread,
      List.length_cons, Nat.pow_succ]
    congr 1
    ring

/-- Nothing else writes a number. -/
theorem of_foldlM_digits {n m : Nat}
    (h : cs.foldlM (fun n c => (digitValue? c).map (10 * n + ·)) n = some m) :
    ∀ c ∈ cs, (digitValue? c).isSome := by
  induction cs generalizing n with
  | nil => simp
  | cons c rest ih =>
    rw [List.foldlM_cons, Option.bind_eq_bind, Option.bind_eq_some_iff] at h
    obtain ⟨next, hnext, h⟩ := h
    obtain ⟨d, hd, -⟩ := Option.map_eq_some_iff.mp hnext
    exact List.forall_mem_cons.mpr ⟨by rw [hd]; rfl, ih h⟩

end Text

/-! ## The number of a status -/

/-- The response gives the status that starts with a digit. -/
def Response.CountsFor (first : Char) (w : Response) : Prop :=
  w.status.toList.head? = some first ∧ w.IsNumeric

instance {first : Char} {w : Response} : Decidable (w.CountsFor first) :=
  inferInstanceAs (Decidable (_ ∧ _))

/-- The status writes a number: all its digits have a place value, and they are not too many. -/
def Response.WritesNumber (w : Response) : Prop :=
  (∀ c ∈ w.status.toList, (Text.digitValue? c).isSome) ∧ w.status.toList.length ≤ 4300

instance {w : Response} : Decidable w.WritesNumber :=
  inferInstanceAs (Decidable (_ ∧ _))

/-- **When a status that counts has a number**, and what it fails for if it has none. -/
theorem statusNumber_ends {first : Char} {w : Response} (hw : w.CountsFor first) :
    Ends (fun f => ¬ w.WritesNumber ∧ ∃ reason, f = .badValue reason) (fun _ => w.WritesNumber)
      (statusNumber w.status.toList) := by
  have hne : w.status.toList.isEmpty = false := by
    rw [List.isEmpty_eq_false_iff]
    intro hnil
    have hhead := hw.1
    rw [hnil] at hhead
    cases hhead
  rw [statusNumber, Text.natOfDigits?, hne, if_neg Bool.false_ne_true]
  split
  · rename_i n hn
    have hdigits := Text.of_foldlM_digits hn
    split
    · rename_i hlength
      exact ⟨hdigits, hlength⟩
    · rename_i hlength
      exact ⟨fun h => hlength h.2, _, rfl⟩
  · rename_i hnone
    refine ⟨fun h => ?_, _, rfl⟩
    obtain ⟨k, -, hread⟩ := Text.foldlM_digits h.1 0
    rw [hread] at hnone
    cases hnone

/-- **A status has a number of its range exactly if it has three digits.** -/
theorem statusNumber_mem_range {first : Char} {w : Response} {d n : Nat}
    (hfirst : Text.digitValue? first = some d) (hpos : 0 < d)
    (hw : w.status.toList.head? = some first) (hn : statusNumber w.status.toList = .ok n) :
    (100 * d ≤ n ∧ n ≤ 100 * d + 99) ↔ w.status.toList.length = 3 := by
  obtain ⟨rest, htext⟩ := List.head?_eq_some_iff.mp hw
  rw [htext] at hn ⊢
  rw [statusNumber, Text.natOfDigits?, List.isEmpty_cons, if_neg Bool.false_ne_true,
    List.foldlM_cons, hfirst, Option.map_some, Option.bind_eq_bind, Option.bind_some, Nat.mul_zero,
    Nat.zero_add] at hn
  split at hn
  · rename_i m hm
    obtain ⟨k, hk, hread⟩ := Text.foldlM_digits (Text.of_foldlM_digits hm) d
    rw [hread] at hm
    split at hn
    · cases hm
      cases hn
      rw [List.length_cons]
      -- the number is at least `d` times the power, and less than `d + 1` times
      have hupper : 10 ^ rest.length * d + k < 10 ^ rest.length * (d + 1) := by
        rw [Nat.mul_succ]
        omega
      constructor
      · rintro ⟨hlow, hhigh⟩
        have hlt : 10 ^ rest.length < 10 ^ 3 := by
          by_contra hge
          have := Nat.mul_le_mul_right d (Nat.not_lt.mp hge)
          omega
        have hgt : 10 ^ 1 < 10 ^ rest.length := by
          by_contra hle
          have := Nat.mul_le_mul_right (d + 1) (Nat.not_lt.mp hle)
          omega
        have := (Nat.pow_lt_pow_iff_right (by decide)).mp hlt
        have := (Nat.pow_lt_pow_iff_right (by decide)).mp hgt
        omega
      · intro hlength
        have hrest : rest.length = 2 := by omega
        rw [hrest] at hk ⊢
        omega
    · cases hn
  · cases hn

/-! ## The status of a route -/

/-- The status is that of the first response that counts, if there is one. -/
theorem firstStatus_cases (first : Char) (responses : List Response) :
    (∃ w, IsFirst (Response.CountsFor first) responses w ∧
      firstStatus first responses = some <$> statusNumber w.status.toList) ∨
    (∀ w, ¬ IsFirst (Response.CountsFor first) responses w) ∧
      firstStatus first responses = .ok none := by
  have hfind : ∀ w, IsFirst (Response.CountsFor first) responses w ↔
      (responses.find? fun r => r.status.toList.head? = some first &&
        r.status.toList.all Text.isDigitLike) = some w := fun w =>
    isFirst_iff_find? fun r => by rw [Bool.and_eq_true, decide_eq_true_iff]; rfl
  rw [firstStatus]
  split
  · rename_i hnone
    refine .inr ⟨fun w hw => ?_, rfl⟩
    rw [hfind, hnone] at hw
    cases hw
  · rename_i w hw
    exact .inl ⟨w, (hfind w).mpr hw, rfl⟩

/-- It can be told if that response writes a number. -/
theorem firstStatus_ends (first : Char) (responses : List Response) :
    Ends (fun f => (∃ w, IsFirst (Response.CountsFor first) responses w ∧ ¬ w.WritesNumber) ∧
        ∃ reason, f = .badValue reason)
      (fun _ => ∀ w, IsFirst (Response.CountsFor first) responses w → w.WritesNumber)
      (firstStatus first responses) := by
  rcases firstStatus_cases first responses with ⟨w, hw, heq⟩ | ⟨hnone, heq⟩
  · rw [heq]
    have hends := statusNumber_ends hw.holds
    cases hnumber : statusNumber w.status.toList with
    | error f =>
      rw [hnumber] at hends
      exact ⟨⟨w, hw, hends.1⟩, hends.2⟩
    | ok n =>
      rw [hnumber] at hends
      exact fun v hv => hv.unique hw ▸ hends
  · rw [heq]
    exact fun w hw => absurd hw (hnone w)

/-- It is in the range if that response has three digits, or if there is none and what stands in for
it is in the range. -/
theorem firstStatus_mem_range {first : Char} {responses : List Response} {d standIn : Nat}
    {status : Option Nat} (hfirst : Text.digitValue? first = some d) (hpos : 0 < d)
    (hstandIn : 100 * d ≤ standIn ∧ standIn ≤ 100 * d + 99)
    (h : firstStatus first responses = .ok status) :
    (100 * d ≤ status.getD standIn ∧ status.getD standIn ≤ 100 * d + 99) ↔
      ∀ w, IsFirst (Response.CountsFor first) responses w → w.status.toList.length = 3 := by
  rcases firstStatus_cases first responses with ⟨w, hw, heq⟩ | ⟨hnone, heq⟩
  · rw [heq] at h
    obtain ⟨n, hn, rfl⟩ := of_map_ok h
    rw [Option.getD_some, statusNumber_mem_range hfirst hpos hw.holds.1 hn]
    exact ⟨fun hlength v hv => hv.unique hw ▸ hlength, fun hall => hall w hw⟩
  · rw [heq] at h
    cases h
    exact iff_of_true hstandIn fun w hw => absurd hw (hnone w)

namespace Route

/-- A status of success stands in for every method. -/
theorem defaultSuccess_mem_range (method : String) :
    200 ≤ defaultSuccess method ∧ defaultSuccess method ≤ 299 := by
  rw [defaultSuccess]
  split
  · decide
  · split <;> decide

/-- **The statuses of a route.** An operation has a route exactly if the first responses that count
for success and for an error write numbers, and else it fails for a bad value. The status of
success is one from 200 to 299 exactly if the first of them is missing or has three digits, and
likewise the status of an error for 400 to 499. -/
theorem classify_statuses (o : Operation) :
    ((∃ r, classify o = .ok r) ↔ ∀ first ∈ ['2', '4'], ∀ w,
      IsFirst (Response.CountsFor first) o.responses w → w.WritesNumber) ∧
    (∀ f, classify o = .error f → ∃ reason, f = .badValue reason) ∧
    ∀ r, classify o = .ok r →
      ((200 ≤ r.successStatus ∧ r.successStatus ≤ 299) ↔ ∀ w,
        IsFirst (Response.CountsFor '2') o.responses w → w.status.toList.length = 3) ∧
      ((400 ≤ r.errorStatus ∧ r.errorStatus ≤ 499) ↔ ∀ w,
        IsFirst (Response.CountsFor '4') o.responses w → w.status.toList.length = 3) := by
  have hsuccess := firstStatus_ends '2' o.responses
  have hfailure := firstStatus_ends '4' o.responses
  have hboth : (∀ first ∈ ['2', '4'], ∀ w,
      IsFirst (Response.CountsFor first) o.responses w → w.WritesNumber) ↔
      (∀ w, IsFirst (Response.CountsFor '2') o.responses w → w.WritesNumber) ∧
        ∀ w, IsFirst (Response.CountsFor '4') o.responses w → w.WritesNumber := by simp
  rw [hboth, classify]
  cases hs : firstStatus '2' o.responses with
  | error f =>
    rw [hs] at hsuccess
    obtain ⟨⟨w, hw, hnot⟩, hreason⟩ := hsuccess
    refine ⟨⟨nofun, fun h => absurd (h.1 w hw) hnot⟩, ?_, nofun⟩
    rintro _ ⟨⟩
    exact hreason
  | ok success =>
    rw [hs] at hsuccess
    cases hf : firstStatus '4' o.responses with
    | error f =>
      rw [hf] at hfailure
      obtain ⟨⟨w, hw, hnot⟩, hreason⟩ := hfailure
      refine ⟨⟨nofun, fun h => absurd (h.2 w hw) hnot⟩, ?_, nofun⟩
      rintro _ ⟨⟩
      exact hreason
    | ok failure =>
      rw [hf] at hfailure
      refine ⟨iff_of_true ⟨_, rfl⟩ ⟨hsuccess, hfailure⟩, nofun, ?_⟩
      rintro _ ⟨⟩
      have htwo : Text.digitValue? '2' = some 2 := by decide
      have hfour : Text.digitValue? '4' = some 4 := by decide
      exact ⟨firstStatus_mem_range htwo (by decide) (defaultSuccess_mem_range _) hs,
        firstStatus_mem_range hfour (by decide) (by decide) hf⟩

/-- An operation with responses of these statuses. -/
def responding (method : String) (statuses : List String) : Operation :=
  ⟨"/pets", method, "pets", true, none, none, [], none, statuses.map fun s => ⟨s, "", []⟩, []⟩

/-- A range and a word do not count, and digits of another script do. -/
theorem statuses_of_ranges : ∃ r, classify (responding "POST" ["default", "2XX", "2٠1", "404"]) = .ok r ∧
    200 ≤ r.successStatus ∧ r.successStatus ≤ 299 ∧ 400 ≤ r.errorStatus ∧ r.errorStatus ≤ 499 := by
  obtain ⟨-, -, hranges⟩ := classify_statuses (responding "POST" ["default", "2XX", "2٠1", "404"])
  have hclass : ((classify (responding "POST" ["default", "2XX", "2٠1", "404"])).toOption.map
      fun _ => ()) = some () := by decide +kernel
  obtain ⟨r, hr, -⟩ := of_toOption_map hclass
  obtain ⟨hsuccess, hfailure⟩ := hranges r hr
  have hfirst : IsFirst (Response.CountsFor '2')
      (responding "POST" ["default", "2XX", "2٠1", "404"]).responses ⟨"2٠1", "", []⟩ :=
    ⟨[⟨"default", "", []⟩, ⟨"2XX", "", []⟩], [⟨"404", "", []⟩], rfl, by decide, by decide⟩
  have hlast : IsFirst (Response.CountsFor '4')
      (responding "POST" ["default", "2XX", "2٠1", "404"]).responses ⟨"404", "", []⟩ :=
    ⟨[⟨"default", "", []⟩, ⟨"2XX", "", []⟩, ⟨"2٠1", "", []⟩], [], rfl, by decide, by decide⟩
  have hin := hsuccess.mpr fun w hw => hw.unique hfirst ▸ by decide
  have hout := hfailure.mpr fun w hw => hw.unique hlast ▸ by decide
  exact ⟨r, hr, hin.1, hin.2, hout⟩

/-- **Not every operation has a route with statuses of their ranges**: four digits are taken for a
status of success, and a superscript, which has no place value, leaves no route at all. -/
theorem status_out_of_range :
    (∃ r, classify (responding "GET" ["2000"]) = .ok r ∧ r.successStatus = 2000) ∧
      ¬ ∃ r, classify (responding "GET" ["2²"]) = .ok r := by
  constructor
  · have hclass : ((classify (responding "GET" ["2000"])).toOption.map Route.successStatus) =
        some 2000 := by decide +kernel
    exact of_toOption_map hclass
  · rintro ⟨r, hr⟩
    have hclass : ((classify (responding "GET" ["2²"])).toOption.map fun _ => ()) = none := by
      decide +kernel
    rw [hr] at hclass
    cases hclass

end Route

end ApiMock
