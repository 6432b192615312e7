import ApiMock.Number.Reading
import ApiMock.Proofs.Text.Pairs
/-!
# TypeScript — reading literals of text

How a module reads a text between single quotes, and a template: up to the
mark that closes it, escapes by what they stand for. The value is a row of
units of sixteen bits. Module code is strict, so there are no octal
escapes; a template that a substitution opens in is not one text.

A text stands for itself between the marks if there is nothing in it that
closes, escapes, breaks or substitutes (`reads_iff`).
-/

namespace ApiMock

namespace TypeScript

open Number (isDigitOf ofDigitsOf)
open Text (pairCount pairCount_cons)

/-- The characters that end a line. -/
def isLineEnd (c : Char) : Bool :=
  c = '\n' || c = '\r' || c.toNat = 0x2028 || c.toNat = 0x2029

/-- The units of a code point. -/
def unitsOfPoint (n : Nat) : List Nat :=
  if n < 0x10000 then [n]
  else [0xd800 + (n - 0x10000) / 0x400, 0xdc00 + (n - 0x10000) % 0x400]

/-- The units of a text. -/
def units (cs : List Char) : List Nat :=
  cs.flatMap fun c => unitsOfPoint c.toNat

/-- What a literal stands between. -/
inductive Quote where
  | single
  | template
  deriving DecidableEq, Repr

/-- The mark at both ends. -/
def Quote.mark : Quote → Char
  | .single => '\''
  | .template => '`'

/-- The unit of a letter that stands for a control character behind a backslash. -/
def controlOf? : Char → Option Nat
  | 'b' => some 8
  | 't' => some 9
  | 'n' => some 10
  | 'v' => some 11
  | 'f' => some 12
  | 'r' => some 13
  | _ => none

/-- The unit of so many hexadecimal digits, and the text behind them. -/
def hexadecimal? (width : Nat) (cs : List Char) : Option (List Nat × List Char) :=
  if width ≤ cs.length ∧ (cs.take width).all (isDigitOf 16) then
    some ([ofDigitsOf 16 (cs.take width)], cs.drop width)
  else none

/-- The units of the code point of hexadecimal digits up to a brace, and the text behind it. -/
def braced? (cs : List Char) : Option (List Nat × List Char) :=
  let digits := cs.takeWhile (isDigitOf 16)
  match cs.dropWhile (isDigitOf 16) with
  | '\x7d' :: rest =>
    if digits.isEmpty ∨ 0x10ffff < ofDigitsOf 16 digits then none
    else some (unitsOfPoint (ofDigitsOf 16 digits), rest)
  | _ => none

/-- What an escape stands for, from behind its backslash: its units, and the text behind it. -/
def escape? : List Char → Option (List Nat × List Char)
  | [] => none
  | 'x' :: rest => hexadecimal? 2 rest
  | 'u' :: '\x7b' :: rest => braced? rest
  | 'u' :: rest => hexadecimal? 4 rest
  | '\r' :: '\n' :: rest => some ([], rest)
  | c :: rest =>
    if isLineEnd c then some ([], rest)
    else if c.isDigit then
      if c = '0' ∧ ¬ rest.head?.any Char.isDigit then some ([0], rest) else none
    else some ((controlOf? c).elim (unitsOfPoint c.toNat) (fun n => [n]), rest)

/-- A character that may stand in a literal without a backslash. -/
def Bare (q : Quote) (c : Char) : Prop :=
  c ≠ q.mark ∧ c ≠ '\\' ∧ (q = .single → c ≠ '\n' ∧ c ≠ '\r')

instance (q : Quote) (c : Char) : Decidable (Bare q c) :=
  inferInstanceAs (Decidable (c ≠ q.mark ∧ c ≠ '\\' ∧ (q = .single → c ≠ '\n' ∧ c ≠ '\r')))

/-- The units that it stands for: ends of lines in templates are line feeds. -/
def bareUnits (c : Char) (rest : List Char) : List Nat :=
  if c = '\r' then (if rest.head? = some '\n' then [] else [10]) else unitsOfPoint c.toNat

/-- **What is read behind the opening mark of a literal**: the units of its value, and the text
behind the closing mark. -/
inductive Reads (q : Quote) : List Char → List Nat → List Char → Prop
  | close {rest} : Reads q (q.mark :: rest) [] rest
  | bare {c cs v rest} (hc : Bare q c)
      (hopens : q = .template → ¬ (c = '$' ∧ cs.head? = some '\x7b')) (hcs : Reads q cs v rest) :
      Reads q (c :: cs) (bareUnits c cs ++ v) rest
  | escaped {cs ds us v rest} (he : escape? cs = some (us, ds)) (hds : Reads q ds v rest) :
      Reads q ('\\' :: cs) (us ++ v) rest

/-- A text that stands for itself in a literal. -/
structure Plain (q : Quote) (cs : List Char) : Prop where
  bare : ∀ c ∈ cs, Bare q c ∧ c ≠ '\r'
  unopened : q = .template → pairCount '$' '\x7b' cs = 0

instance (q : Quote) (cs : List Char) : Decidable (Plain q cs) :=
  -- the characters of the text are run through, not all characters
  letI := List.decidableBAll (fun c => Bare q c ∧ c ≠ '\r') cs
  decidable_of_iff ((∀ c ∈ cs, Bare q c ∧ c ≠ '\r') ∧
    (q = .template → pairCount '$' '\x7b' cs = 0)) ⟨fun h => ⟨h.1, h.2⟩, fun h => ⟨h.1, h.2⟩⟩

variable {q : Quote} {c : Char} {cs xs ys text rest : List Char} {v us : List Nat}

/-! ## Units -/

@[simp] theorem units_nil : units [] = [] := rfl

@[simp] theorem units_cons : units (c :: cs) = unitsOfPoint c.toNat ++ units cs := rfl

@[simp] theorem units_append : units (xs ++ ys) = units xs ++ units ys :=
  List.flatMap_append

theorem length_unitsOfPoint_pos (n : Nat) : 0 < (unitsOfPoint n).length := by
  rw [unitsOfPoint]
  split <;> exact Nat.succ_pos _

theorem length_unitsOfPoint_le (n : Nat) : (unitsOfPoint n).length ≤ 2 := by
  rw [unitsOfPoint]
  split
  · exact Nat.le_succ 1
  · exact Nat.le_refl 2

theorem length_le_units (cs : List Char) : cs.length ≤ (units cs).length := by
  induction cs with
  | nil => exact Nat.le_refl 0
  | cons c rest ih =>
    have hpos := length_unitsOfPoint_pos c.toNat
    rw [units_cons, List.length_append, List.length_cons]
    omega

theorem length_units_le_cons (c : Char) (cs : List Char) :
    (units cs).length ≤ (units (c :: cs)).length := by
  rw [units_cons, List.length_append]
  exact Nat.le_add_left _ _

/-! ## Texts that stand for themselves -/

theorem plain_nil : Plain q [] :=
  ⟨List.forall_mem_nil _, fun _ => rfl⟩

/-- A character in front of a text. -/
theorem plain_cons : Plain q (c :: cs) ↔ (Bare q c ∧ c ≠ '\r') ∧
    (q = .template → ¬ (c = '$' ∧ cs.head? = some '\x7b')) ∧ Plain q cs := by
  constructor
  · intro h
    obtain ⟨hc, hcs⟩ := List.forall_mem_cons.mp h.bare
    have hpairs := fun hq => Nat.add_eq_zero_iff.mp (pairCount_cons ▸ h.unopened hq)
    refine ⟨hc, fun hq hopens => ?_, hcs, fun hq => (hpairs hq).2⟩
    have hnone := (hpairs hq).1
    rw [if_pos hopens] at hnone
    exact absurd hnone Nat.one_ne_zero
  · rintro ⟨hc, hopens, hcs⟩
    refine ⟨List.forall_mem_cons.mpr ⟨hc, hcs.bare⟩, fun hq => ?_⟩
    rw [pairCount_cons, if_neg (hopens hq), hcs.unopened hq]

/-- Texts in a row, between which no substitution opens. -/
theorem plain_append (hmeet : ¬ (xs.getLast? = some '$' ∧ ys.head? = some '\x7b')) :
    Plain q (xs ++ ys) ↔ Plain q xs ∧ Plain q ys := by
  have hpairs := Text.pairCount_append_of_not hmeet
  constructor
  · intro h
    obtain ⟨hx, hy⟩ := List.forall_mem_append.mp h.bare
    have hnone := fun hq => Nat.add_eq_zero_iff.mp (hpairs ▸ h.unopened hq)
    exact ⟨⟨hx, fun hq => (hnone hq).1⟩, ⟨hy, fun hq => (hnone hq).2⟩⟩
  · rintro ⟨hx, hy⟩
    refine ⟨List.forall_mem_append.mpr ⟨hx.bare, hy.bare⟩, fun hq => ?_⟩
    rw [hpairs, hx.unopened hq, hy.unopened hq]

/-! ## What is read -/

theorem hexadecimal?_taken {width : Nat} (hwidth : 0 < width)
    (h : hexadecimal? width text = some (us, rest)) :
    ∃ used, text = used ++ rest ∧ us.length ≤ (units used).length := by
  rw [hexadecimal?] at h
  split at h
  · rename_i hdigits
    cases h
    have hused := length_le_units (text.take width)
    rw [List.length_take_of_le hdigits.1] at hused
    exact ⟨text.take width, (List.take_append_drop width text).symm, Nat.le_trans hwidth hused⟩
  · cases h

theorem braced?_taken (h : braced? text = some (us, rest)) :
    ∃ used, text = used ++ rest ∧ us.length ≤ (units used).length := by
  rw [braced?] at h
  split at h
  · rename_i behind hdrop
    split at h
    · cases h
    · rename_i hdigits
      cases h
      rw [List.isEmpty_iff] at hdigits
      have hused := length_le_units (text.takeWhile (isDigitOf 16) ++ ['\x7d'])
      have hpos := List.length_pos_iff.mpr fun hnil => hdigits (.inl hnil)
      have hshort := length_unitsOfPoint_le (ofDigitsOf 16 (text.takeWhile (isDigitOf 16)))
      rw [List.length_append, List.length_singleton] at hused
      refine ⟨text.takeWhile (isDigitOf 16) ++ ['\x7d'], ?_, by omega⟩
      rw [List.append_assoc, List.singleton_append, ← hdrop, List.takeWhile_append_dropWhile]
  · cases h

/-- An escape stands for no more units than it takes characters. -/
theorem escape?_taken (h : escape? text = some (us, rest)) :
    ∃ used, text = used ++ rest ∧ us.length ≤ (units used).length := by
  unfold escape? at h
  split at h
  · cases h
  · obtain ⟨used, rfl, hlength⟩ := hexadecimal?_taken Nat.zero_lt_two h
    exact ⟨'x' :: used, rfl, Nat.le_trans hlength (length_units_le_cons _ _)⟩
  · obtain ⟨used, rfl, hlength⟩ := braced?_taken h
    exact ⟨'u' :: '\x7b' :: used, rfl, Nat.le_trans hlength
      (Nat.le_trans (length_units_le_cons _ _) (length_units_le_cons _ _))⟩
  · obtain ⟨used, rfl, hlength⟩ := hexadecimal?_taken (Nat.succ_pos 3) h
    exact ⟨'u' :: used, rfl, Nat.le_trans hlength (length_units_le_cons _ _)⟩
  · cases h
    exact ⟨['\r', '\n'], rfl, Nat.zero_le _⟩
  · rename_i c behind _ _ _ _
    have hpos := length_unitsOfPoint_pos c.toNat
    split at h
    · cases h
      exact ⟨[c], rfl, Nat.zero_le _⟩
    · split at h
      · split at h
        · cases h
          exact ⟨[c], rfl, length_le_units [c]⟩
        · cases h
      · cases h
        refine ⟨[c], rfl, ?_⟩
        rw [units_cons, units_nil, List.append_nil]
        cases controlOf? c with
        | none => exact Nat.le_refl _
        | some n => exact hpos

theorem length_bareUnits_le (c : Char) (cs : List Char) :
    (bareUnits c cs).length ≤ (unitsOfPoint c.toNat).length := by
  have hpos := length_unitsOfPoint_pos c.toNat
  rw [bareUnits]
  split
  · split
    · exact Nat.zero_le _
    · exact hpos
  · exact Nat.le_refl _

/-- A character stands for itself unless it is a carriage return. -/
theorem bareUnits_eq_iff : bareUnits c cs = unitsOfPoint c.toNat ↔ c ≠ '\r' := by
  rw [bareUnits]
  split
  · rename_i hc
    rw [hc]
    split <;> decide
  · exact iff_of_true rfl (by assumption)

/-- **A literal is closed by the mark behind what was read**, has no more units than it, and
stands for it only if it is plain. -/
theorem Reads.taken (h : Reads q text v rest) :
    ∃ used, text = used ++ q.mark :: rest ∧ v.length ≤ (units used).length ∧
      (v = units used → Plain q used) := by
  induction h with
  | close => exact ⟨[], rfl, Nat.le_refl 0, fun _ => plain_nil⟩
  | @bare c cs v rest hc hopens hcs ih =>
    obtain ⟨used, rfl, hlength, hplain⟩ := ih
    have hhead := length_bareUnits_le c (used ++ q.mark :: rest)
    refine ⟨c :: used, rfl, ?_, fun hv => ?_⟩
    · rw [units_cons, List.length_append, List.length_append]
      omega
    · rw [units_cons] at hv
      have htotal := congrArg List.length hv
      rw [List.length_append, List.length_append] at htotal
      obtain ⟨hunits, hrest⟩ := List.append_inj hv (by omega)
      refine plain_cons.mpr ⟨⟨hc, bareUnits_eq_iff.mp hunits⟩, fun hq hused => ?_, hplain hrest⟩
      refine hopens hq ⟨hused.1, ?_⟩
      rw [List.head?_append, hused.2]
      rfl
  | @escaped cs ds us v rest he hds ih =>
    obtain ⟨used, rfl, hlength, -⟩ := ih
    obtain ⟨taken, rfl, hunits⟩ := escape?_taken he
    have hlong : (us ++ v).length < (units ('\\' :: (taken ++ used))).length := by
      have hpos := length_unitsOfPoint_pos '\\'.toNat
      rw [units_cons, units_append, List.length_append, List.length_append, List.length_append]
      omega
    refine ⟨'\\' :: (taken ++ used), by rw [List.cons_append, List.append_assoc],
      Nat.le_of_lt hlong, fun hv => ?_⟩
    rw [hv] at hlong
    exact absurd hlong (Nat.lt_irrefl _)

/-- **A literal is read in one way.** -/
theorem Reads.unique {w : List Nat} {other : List Char} (h : Reads q text v rest)
    (h' : Reads q text w other) : v = w ∧ rest = other := by
  induction h generalizing w other with
  | close =>
    generalize htext : q.mark :: _ = text at h'
    cases h' with
    | close => exact ⟨rfl, (List.cons.inj htext).2⟩
    | bare hc => exact absurd (List.cons.inj htext).1.symm hc.1
    | escaped => cases q <;> exact absurd (List.cons.inj htext).1 (by decide)
  | @bare c cs v rest hc hopens hcs ih =>
    generalize htext : c :: cs = text at h'
    cases h' with
    | close => exact absurd (List.cons.inj htext).1 hc.1
    | bare hc' hopens' hcs' =>
      cases htext
      exact (ih hcs').imp_left (congrArg _)
    | escaped => exact absurd (List.cons.inj htext).1 hc.2.1
  | @escaped cs ds us v rest he hds ih =>
    generalize htext : '\\' :: cs = text at h'
    cases h' with
    | close => cases q <;> exact absurd (List.cons.inj htext).1 (by decide)
    | bare hc => exact absurd (List.cons.inj htext).1.symm hc.2.1
    | escaped he' hds' =>
      cases htext
      cases he.symm.trans he'
      exact (ih hds').imp_left (congrArg _)

/-- A plain text is read up to the mark behind it. -/
theorem Plain.reads (h : Plain q cs) : Reads q (cs ++ q.mark :: rest) (units cs) rest := by
  induction cs with
  | nil => exact .close
  | cons c cs ih =>
    obtain ⟨⟨hc, hreturn⟩, hopens, hcs⟩ := plain_cons.mp h
    rw [units_cons, ← bareUnits_eq_iff.mpr hreturn]
    refine .bare hc (fun hq hnext => ?_) (ih hcs)
    cases cs with
    | nil =>
      -- what comes next is the closing mark, which opens nothing
      subst hq
      exact absurd (Option.some_inj.mp hnext.2) (by decide)
    | cons d cs => exact hopens hq hnext

/-- **A text stands for itself in a literal exactly if it is plain.** -/
theorem reads_iff : Reads q (cs ++ q.mark :: rest) (units cs) rest ↔ Plain q cs := by
  refine ⟨fun h => ?_, Plain.reads⟩
  obtain ⟨used, htext, -, hplain⟩ := h.taken
  have hused : used = cs := (List.append_cancel_right htext).symm
  exact hused ▸ hplain (congrArg units hused.symm)

end TypeScript

end ApiMock
