import ApiMock.Proofs.Yaml.Shared
/-!
# Yaml — numbers and words

What stands without quotes in the shared notation has the form of a number, of
a truth value or of null, and is read as the value that JSON reads
(`Json.Bare.stands`).
-/

namespace ApiMock

open Json (Bare Digits Exponent IsBare forall_ascii signText natOf isWholePart)

variable {cs ds rest : List Char}

/-! ## Characters of numbers -/

/-- It is no space of any script, and a digit of none but of ASCII. -/
theorem Json.IsBare.plain {c : Char} (h : IsBare c) :
    Text.isSpace c = false ∧ Number.asciiDigit c = c := by
  have hall : ∀ n < 128, IsBare (Char.ofNat n) → Text.isSpace (Char.ofNat n) = false ∧
      Number.asciiDigit (Char.ofNat n) = Char.ofNat n := by decide +kernel
  exact forall_ascii (fun c => IsBare c → Text.isSpace c = false ∧ Number.asciiDigit c = c)
    hall h.ascii h

/-- So is its small letter. -/
theorem Json.IsBare.toLower {c : Char} (h : IsBare c) : IsBare c.toLower := by
  have hall : ∀ n < 128, IsBare (Char.ofNat n) → IsBare (Char.ofNat n).toLower := by
    decide +kernel
  exact forall_ascii (fun c => IsBare c → IsBare c.toLower) hall h.ascii h

/-- A zero in front of other digits is no part of a number. -/
theorem Json.isWholePart_zero {ds : List Char} (h : ds ≠ []) : isWholePart ('0' :: ds) = false := by
  cases ds with
  | nil => exact absurd rfl h
  | cons d ds => rfl

namespace Number

/-- So it is taken as it stands. -/
theorem plain_of_bare (h : ∀ c ∈ cs, IsBare c) : plain cs = cs := by
  have hspace : ∀ c ∈ cs, Text.isSpace c = false := fun c hc => (h c hc).plain.1
  have hnone : ∀ {xs : List Char}, (∀ c ∈ xs, Text.isSpace c = false) →
      xs.dropWhile Text.isSpace = xs := by
    intro xs hxs
    cases xs with
    | nil => rfl
    | cons c xs => exact List.dropWhile_cons_of_neg (by simp [hxs c List.mem_cons_self])
  have htrim : Text.trim Text.isSpace cs = cs := by
    rw [Text.trim, hnone hspace, hnone (by simpa using hspace), List.reverse_reverse]
  rw [plain, htrim]
  exact (List.map_congr_left fun c hc => (h c hc).plain.2).trans (List.map_id cs)

/-- Digits without underscores are digits. -/
theorem grouped?_digits {p : Char → Bool} (hds : Text.IsRun p ds) (hp : p '_' = false) :
    grouped? p ds = some ds := by
  have hplain : Text.IsRun (fun c : Char => decide (c ≠ '_')) ds := by
    refine ⟨hds.1, fun c hc => decide_eq_true ?_⟩
    rintro rfl
    have := hds.2 _ hc
    rw [hp] at this
    cases this
  have hruns : Text.runs (· ≠ '_') ds = [ds] := Text.runs_of_isRun hplain
  have hall : ds.all p = true := List.all_eq_true.mpr hds.2
  have hsome : ds.isEmpty = false := List.isEmpty_eq_false_iff.mpr hds.1
  simp only [grouped?, hruns]
  simp [hall, hsome]

theorem groupedDigits?_digits (hds : Digits ds) : groupedDigits? ds = some ds :=
  grouped?_digits hds rfl

theorem optionalDigits?_digits (hds : Digits ds) : optionalDigits? ds = some ds := by
  rw [optionalDigits?, List.isEmpty_eq_false_iff.mpr hds.1, if_neg Bool.false_ne_true,
    groupedDigits?_digits hds]

/-- Digits have no sign. -/
theorem signed_digits (hds : Digits ds) : signed (ds ++ rest) = (false, ds ++ rest) := by
  obtain ⟨c, cs, rfl⟩ := List.exists_cons_of_ne_nil hds.1
  have hc : c.isDigit = true := hds.2 c List.mem_cons_self
  rw [List.cons_append, signed]
  · rintro tail heq
    rw [(List.cons.inj heq).1] at hc
    cases hc
  · rintro tail heq
    rw [(List.cons.inj heq).1] at hc
    cases hc

/-- The exponent that an exponent with a small letter writes. -/
theorem exponent?_exponent {exponent : List Char} {scale : Int} (h : Exponent exponent scale) :
    exponent? exponent = some scale := by
  cases h with
  | none => rfl
  | @positive e ds he hds =>
    have hsigned : signed ('+' :: ds) = (false, ds) := rfl
    rw [exponent?, hsigned]
    dsimp only
    rw [groupedDigits?_digits hds]
    rfl
  | @negative e ds he hds =>
    have hsigned : signed ('-' :: ds) = (true, ds) := rfl
    rw [exponent?, hsigned]
    dsimp only
    rw [groupedDigits?_digits hds]
    rfl

/-- **The value of digits with a fraction and an exponent.** -/
theorem decimal?_real {negative : Bool} {whole fraction exponent : List Char} {scale : Int}
    (hwhole : Digits whole) (hfraction : Digits fraction) (hexponent : Exponent exponent scale) :
    decimal? negative (whole ++ '.' :: (fraction ++ exponent)) =
      some (Binary64.ofDecimal negative (natOf (whole ++ fraction)) (scale - fraction.length)) := by
  have hdigit : ∀ c : Char, c.isDigit = true → c ≠ 'e' ∧ c ≠ 'E' ∧ c ≠ '.' := by
    rintro c hc
    refine ⟨?_, ?_, ?_⟩ <;> (rintro rfl; cases hc)
  have hmantissa : ∀ c ∈ whole ++ '.' :: fraction,
      (decide (c ≠ 'e') && decide (c ≠ 'E')) = true := by
    intro c hc
    rw [Bool.and_eq_true, decide_eq_true_iff, decide_eq_true_iff]
    rcases List.mem_append.mp hc with hc | hc
    · exact ⟨(hdigit c (hwhole.2 c hc)).1, (hdigit c (hwhole.2 c hc)).2.1⟩
    · rcases List.mem_cons.mp hc with rfl | hc
      · decide
      · exact ⟨(hdigit c (hfraction.2 c hc)).1, (hdigit c (hfraction.2 c hc)).2.1⟩
  have htail : exponent.head?.any (fun c => decide (c ≠ 'e') && decide (c ≠ 'E')) = false := by
    cases hexponent with
    | none => rfl
    | positive he => rcases he with rfl | rfl <;> rfl
    | negative he => rcases he with rfl | rfl <;> rfl
  have hpoint : ∀ c ∈ whole, decide (c ≠ '.') = true :=
    fun c hc => decide_eq_true (hdigit c (hwhole.2 c hc)).2.2
  obtain ⟨hfront, hbehind⟩ := Text.takeWhile_word hmantissa htail
  obtain ⟨hbefore, hafter⟩ :=
    @Text.takeWhile_word (fun c => decide (c ≠ '.')) whole ('.' :: fraction)
    hpoint rfl
  have htext : whole ++ '.' :: (fraction ++ exponent) = whole ++ '.' :: fraction ++ exponent := by
    simp
  have hsome : whole.isEmpty = false := List.isEmpty_eq_false_iff.mpr hwhole.1
  rw [htext, decimal?, List.span_eq_takeWhile_dropWhile, hfront, hbehind]
  dsimp only
  rw [List.span_eq_takeWhile_dropWhile, hbefore, hafter]
  simp only [List.drop_succ_cons, List.drop_zero, optionalDigits?_digits hwhole,
    optionalDigits?_digits hfraction, exponent?_exponent hexponent, Option.bind_eq_bind,
    Option.bind_some, hsome, Bool.false_and]
  rfl

/-- A text that starts like a number is none of the words that do not. -/
theorem ofList_ne {words : List String} {c : Char}
    (hc : c.isDigit = true ∨ c = '-')
    (h : ∀ w ∈ words, (w.toList.head?.any fun d => d.isDigit || decide (d = '-')) = false) :
    ∀ w ∈ words, String.ofList (c :: cs) ≠ w := by
  rintro w hw rfl
  have hhead := h _ hw
  rw [String.toList_ofList] at hhead
  simp only [List.head?_cons, Option.any_some, Bool.or_eq_false_iff,
    decide_eq_false_iff_not] at hhead
  rcases hc with hc | hc
  · rw [hc] at hhead
    cases hhead.1
  · exact hhead.2 hc

/-- **The value that such a text writes.** It is no name of one. -/
theorem float?_real {whole fraction exponent : List Char} {scale : Int}
    (hwhole : Digits whole) (hfraction : Digits fraction) (hexponent : Exponent exponent scale) :
    float? (whole ++ '.' :: (fraction ++ exponent)) =
      some (Binary64.ofDecimal false (natOf (whole ++ fraction)) (scale - fraction.length)) := by
  have hnames : ∀ w ∈ ["inf", "infinity", "nan"],
      String.ofList ((whole ++ '.' :: (fraction ++ exponent)).map Char.toLower) ≠ w := by
    obtain ⟨c, cs, rfl⟩ := List.exists_cons_of_ne_nil hwhole.1
    have hc : c.isDigit = true := hwhole.2 c List.mem_cons_self
    have hlower : c.toLower = c := by
      refine Text.toLower_of_not_isUpper fun hupper => ?_
      rw [Text.not_isDigit_of_isUpper hupper] at hc
      cases hc
    rw [List.cons_append, List.map_cons, hlower]
    exact ofList_ne (.inl hc) (by decide)
  rw [float?, signed_digits hwhole]
  dsimp only
  generalize String.ofList _ = word at hnames ⊢
  have hnumber := @decimal?_real false _ _ _ _ hwhole hfraction hexponent
  simp [hnames "inf", hnames "infinity", hnames "nan", hnumber]

end Number

namespace Binary64

/-- A sign and a magnitude up to infinity make a number; the other sign makes its opposite. -/
theorem ofMagnitude_signs {m : Nat} (hm : m ≤ 2047 * twoTo 52) :
    (ofMagnitude false m).isNaN = false ∧ (ofMagnitude false m).neg = ofMagnitude true m := by
  have hpow : twoTo 52 = 4503599627370496 ∧ twoTo 63 = 9223372036854775808 := ⟨rfl, rfl⟩
  have hbits : (ofMagnitude false m).bits.toNat = m := by
    rw [ofMagnitude, if_neg Bool.false_ne_true, UInt64.toNat_ofNat']
    omega
  have hnegative : (ofMagnitude false m).isNegative = false := by
    rw [isNegative, hbits, hpow.2, decide_eq_false_iff_not]
    omega
  constructor
  · simp only [isNaN, exponentField, fractionField, hbits, hpow, Bool.and_eq_false_iff,
      decide_eq_false_iff_not]
    omega
  · have hlow : m % twoTo 63 = m := Nat.mod_eq_of_lt (by omega)
    rw [neg, hnegative, hbits, hlow, Bool.not_false]

theorem ofQuotient_magnitude (num den : Nat) :
    ∃ m ≤ 2047 * twoTo 52, ∀ negative, ofQuotient negative num den = ofMagnitude negative m := by
  simp only [ofQuotient]
  split_ifs with hzero _ hsmall hsmall
  · exact ⟨0, Nat.zero_le _, fun _ => rfl⟩
  · exact ⟨_, hsmall.le, fun _ => rfl⟩
  · exact ⟨_, le_rfl, fun _ => rfl⟩
  · exact ⟨_, hsmall.le, fun _ => rfl⟩
  · exact ⟨_, le_rfl, fun _ => rfl⟩

/-- What decimal digits write is a number, and the sign does not change its magnitude. -/
theorem ofDecimal_signs (digits : Nat) (exponent : Int) :
    (ofDecimal false digits exponent).isNaN = false ∧
      (ofDecimal false digits exponent).neg = ofDecimal true digits exponent := by
  obtain ⟨m, hm, hmagnitude⟩ : ∃ m ≤ 2047 * twoTo 52, ∀ negative,
      ofDecimal negative digits exponent = ofMagnitude negative m := by
    simp only [ofDecimal]
    split_ifs
    · exact ⟨0, Nat.zero_le _, fun _ => rfl⟩
    · exact ⟨_, le_rfl, fun _ => rfl⟩
    · exact ⟨0, Nat.zero_le _, fun _ => rfl⟩
    · exact ofQuotient_magnitude _ _
    · exact ofQuotient_magnitude _ _
  rw [hmagnitude, hmagnitude]
  exact ofMagnitude_signs hm

end Binary64

namespace Text

/-- In ASCII, every letter has its small letter for itself. -/
theorem lowerFrom_ascii (isInside : Bool) (h : ∀ c ∈ cs, c.toNat < 128) :
    lowerFrom isInside cs = cs.map Char.toLower := by
  induction cs generalizing isInside with
  | nil => rfl
  | cons c rest ih =>
    obtain ⟨hc, hrest⟩ := List.forall_mem_cons.mp h
    have hsigma : c ≠ 'Σ' := by
      rintro rfl
      revert hc
      decide
    have hnot : ¬ (decide (c = 'Σ') && isInside && !goesOn rest) = true := by simp [hsigma]
    rw [lowerFrom, if_neg hnot, ih _ hrest, lowerChar, if_pos hc]
    rfl

end Text

theorem Json.Digits.toLower (hds : Digits ds) : ds.map Char.toLower = ds := by
  refine (List.map_congr_left fun c hc => ?_).trans (List.map_id ds)
  refine Text.toLower_of_not_isUpper fun hupper => ?_
  have hdigit := hds.2 c hc
  rw [Text.not_isDigit_of_isUpper hupper] at hdigit
  cases hdigit

/-- An exponent says the same with a small letter. -/
theorem Json.Exponent.lower {exponent : List Char} {scale : Int} (h : Exponent exponent scale) :
    Exponent (exponent.map Char.toLower) scale := by
  cases h with
  | none => exact .none
  | positive he hds =>
    rw [List.map_cons, List.map_cons, hds.toLower]
    refine .positive ?_ hds
    rcases he with rfl | rfl <;> exact .inl (by decide)
  | negative he hds =>
    rw [List.map_cons, List.map_cons, hds.toLower]
    refine .negative ?_ hds
    rcases he with rfl | rfl <;> exact .inl (by decide)

namespace Yaml

open Number (withSign)

namespace Numeral

/-- The sign of a number is split off. -/
theorem sign_signText {negative : Bool} (hds : Digits ds) :
    sign (signText negative ++ (ds ++ rest)) = .ok (negative, ds ++ rest) := by
  obtain ⟨c, cs, rfl⟩ := List.exists_cons_of_ne_nil hds.1
  have hc : c.isDigit = true := hds.2 c List.mem_cons_self
  cases negative with
  | true => rfl
  | false =>
    rw [signText, if_neg Bool.false_ne_true, List.nil_append, List.cons_append, sign]
    · exact List.cons_ne_nil c (cs ++ rest)
    · rintro tail heq
      rw [(List.cons.inj heq).1] at hc
      cases hc
    · rintro tail heq
      rw [(List.cons.inj heq).1] at hc
      cases hc

/-- Underscores do not count, and there are none. -/
theorem filter_of_bare (h : ∀ c ∈ cs, IsBare c) : cs.filter (· ≠ '_') = cs := by
  rw [List.filter_eq_self]
  rintro c hc
  refine decide_eq_true ?_
  rintro rfl
  have := h _ hc
  revert this
  decide

theorem Digits.bare (hds : Digits ds) : ∀ c ∈ ds, IsBare c :=
  fun c hc => .inl (Text.isAlphanum_iff.mpr (.inr (.inr (hds.2 c hc))))

/-- **Digits of which there are not too many are a whole number.** -/
theorem whole_digits (hds : Digits ds) (hmost : ds.length ≤ Number.mostDigits) :
    whole 10 ds = .ok (natOf ds) := by
  have hplain : Number.plain ds = ds := Number.plain_of_bare (Digits.bare hds)
  have hsigned : Number.signed ds = (false, ds) := by
    have h := @Number.signed_digits ds [] hds
    rwa [List.append_nil] at h
  have hcount : leadingDigits ds = ds.length := by
    have hrun : ds.takeWhile (fun c => c.isDigit || decide (c = '_')) = ds := by
      rw [List.takeWhile_eq_self_iff]
      intro c hc
      rw [hds.2 c hc, Bool.true_or]
    simp only [leadingDigits, hplain, hsigned, hrun, Number.groupedDigits?_digits hds,
      Option.map_some, Option.getD_some]
  have hdigit : ∀ c : Char, c.isDigit = true → Number.isDigitOf 10 c = true ∧
      (Text.hexValue? c).getD 0 = c.toNat - 48 := by
    have hall : ∀ n < 128, (Char.ofNat n).isDigit = true →
        Number.isDigitOf 10 (Char.ofNat n) = true ∧
      (Text.hexValue? (Char.ofNat n)).getD 0 = (Char.ofNat n).toNat - 48 := by decide +kernel
    intro c hc
    have hascii := (Text.isDigit_iff.mp hc).2
    exact forall_ascii (fun c => c.isDigit = true → Number.isDigitOf 10 c = true ∧
      (Text.hexValue? c).getD 0 = c.toNat - 48) hall (by omega) hc
  have hmarker : Number.withoutMarker 10 ds = ds := by
    rw [Number.withoutMarker.eq_def]
    split
    · rfl
    · rfl
  have hvalue : Number.ofDigitsOf 10 ds = natOf ds := by
    rw [Number.ofDigitsOf, natOf]
    refine List.foldl_ext _ _ 0 fun n c hc => ?_
    rw [(hdigit c (hds.2 c hc)).2]
  have hnum : Number.foreignInt? 10 ds = some ((natOf ds : Nat) : Int) := by
    rw [Number.foreignInt?, hplain, hsigned]
    dsimp only
    rw [hmarker, Number.grouped?_digits ⟨hds.1, fun c hc => (hdigit c (hds.2 c hc)).1⟩ (by decide),
      Option.map_some, hvalue]
    rfl
  rw [whole, hcount, hnum]
  have hfew : ¬ (decide (10 = 10) && decide (Number.mostDigits < ds.length)) = true := by
    simpa using hmost
  rw [if_neg hfew]

/-- **A whole number is read as what it writes.** -/
theorem int_digits {negative : Bool} (hds : Digits ds) (hpart : isWholePart ds = true)
    (hmost : ds.length ≤ Number.mostDigits) :
    int (String.ofList (signText negative ++ ds)) = .ok (withSign negative (natOf ds)) := by
  have hsignBare : ∀ b, ∀ c ∈ signText b, IsBare c := by decide
  have hbare : ∀ c ∈ signText negative ++ ds, IsBare c := by
    intro c hc
    rcases List.mem_append.mp hc with hc | hc
    · exact hsignBare negative c hc
    · exact Digits.bare hds c hc
  have hunsigned : unsignedInt ds = .ok (natOf ds) := by
    have hcolon : ds.contains ':' = false := by
      rw [List.contains_eq_mem, decide_eq_false_iff_not]
      exact fun hin => by cases hds.2 _ hin
    rw [unsignedInt.eq_def]
    split
    · exact absurd rfl hds.1
    · rfl
    · cases hpart
    · cases hpart
    · rename_i hzero _ _
      cases (Json.isWholePart_zero hzero).symm.trans hpart
    · rw [hcolon, if_neg Bool.false_ne_true, whole_digits hds hmost]
  have hsign := @sign_signText ds [] negative hds
  rw [List.append_nil] at hsign
  rw [int, String.toList_ofList, filter_of_bare hbare, hsign]
  change (do
    let n ← unsignedInt ds
    return if negative then -n else n) = _
  rw [hunsigned]
  rfl

/-- The value of a number with a fraction, without its sign. It is no name of one. -/
theorem unsignedFloat_real {whole fraction exponent : List Char} {scale : Int}
    (hwhole : Digits whole) (hfraction : Digits fraction) (hexponent : Exponent exponent scale)
    (hbare : ∀ c ∈ whole ++ '.' :: (fraction ++ exponent), IsBare c) :
    whole ++ '.' :: (fraction ++ exponent) ≠ nanName ∧
      unsignedFloat (whole ++ '.' :: (fraction ++ exponent)) =
        .ok (Binary64.ofDecimal false (natOf (whole ++ fraction)) (scale - fraction.length)) := by
  have hnames : ∀ name ∈ [".inf".toList, nanName],
      whole ++ '.' :: (fraction ++ exponent) ≠ name := by
    have hhead : ∀ name ∈ [".inf".toList, nanName], name.head? = some '.' := by decide
    rintro name hname rfl
    have hpoint := hhead _ hname
    obtain ⟨c, cs, rfl⟩ := List.exists_cons_of_ne_nil hwhole.1
    have hc : c.isDigit = true := hwhole.2 c List.mem_cons_self
    rw [List.cons_append, List.head?_cons, Option.some.injEq] at hpoint
    rw [hpoint] at hc
    cases hc
  have hcolon : (whole ++ '.' :: (fraction ++ exponent)).contains ':' = false := by
    rw [List.contains_eq_mem, decide_eq_false_iff_not]
    exact fun hin => absurd (hbare ':' hin) (by decide)
  refine ⟨hnames _ (by simp), ?_⟩
  rw [unsignedFloat, if_neg (hnames _ (by simp)), if_neg (hnames _ (by simp)), hcolon,
    if_neg Bool.false_ne_true, real, Number.foreignFloat?, Number.plain_of_bare hbare,
    Number.float?_real hwhole hfraction hexponent]

/-- **So is a number with a fraction.** -/
theorem float_real {negative : Bool} {whole fraction exponent : List Char} {scale : Int}
    (serial : Nat) (hwhole : Digits whole) (hfraction : Digits fraction)
    (hexponent : Exponent exponent scale)
    (hbare : ∀ c ∈ signText negative ++ (whole ++ '.' :: (fraction ++ exponent)), IsBare c) :
    float serial (String.ofList (signText negative ++ (whole ++ '.' :: (fraction ++ exponent)))) =
      .ok (Binary64.ofDecimal negative (natOf (whole ++ fraction)) (scale - fraction.length)) := by
  -- the letter of the exponent is read in lower case, and nothing else changes
  have hsignLower : ∀ b, (signText b).map Char.toLower = signText b := by decide
  have hlower :
      Text.lowerFrom false (signText negative ++ (whole ++ '.' :: (fraction ++ exponent))) =
      signText negative ++ (whole ++ '.' :: (fraction ++ exponent.map Char.toLower)) := by
    rw [Text.lowerFrom_ascii false fun c hc => (hbare c hc).ascii]
    simp only [List.map_append, List.map_cons, hsignLower, hwhole.toLower, hfraction.toLower]
    rfl
  have hplain : ∀ d ∈ whole ++ '.' :: (fraction ++ exponent.map Char.toLower), IsBare d := by
    intro d hd
    have hmem : d ∈ (whole ++ '.' :: (fraction ++ exponent)).map Char.toLower := by
      simp only [List.map_append, List.map_cons, hwhole.toLower, hfraction.toLower]
      exact hd
    obtain ⟨e, he, rfl⟩ := List.mem_map.mp hmem
    exact (hbare e (List.mem_append_right _ he)).toLower
  obtain ⟨hname, hunsigned⟩ := unsignedFloat_real hwhole hfraction hexponent.lower hplain
  -- the sign is applied to the value here, and goes into the bits there
  obtain ⟨hnumber, hneg⟩ := Binary64.ofDecimal_signs (natOf (whole ++ fraction))
    (scale - fraction.length)
  rw [float, String.toList_ofList, filter_of_bare hbare, hlower, sign_signText hwhole]
  simp only [bind, Except.bind, hunsigned, pure, Except.pure, if_neg hname, hnumber, hneg,
    Bool.false_eq_true, if_false]
  cases negative <;> simp

end Numeral

/-! ## Forms -/

namespace Tag

/-- A sign is no part of the form. -/
theorem unsigned_signText {negative : Bool} (hds : Digits ds) :
    unsigned (signText negative ++ (ds ++ rest)) = ds ++ rest := by
  obtain ⟨c, cs, rfl⟩ := List.exists_cons_of_ne_nil hds.1
  have hc : c.isDigit = true := hds.2 c List.mem_cons_self
  cases negative with
  | true => rfl
  | false =>
    rw [signText, if_neg Bool.false_ne_true, List.nil_append, List.cons_append, unsigned]
    · rintro tail heq
      rw [(List.cons.inj heq).1] at hc
      cases hc
    · rintro tail heq
      rw [(List.cons.inj heq).1] at hc
      cases hc

theorem isNumeral_digits (hds : Digits ds) : isNumeral ds = true := by
  have hspaced : ds.all isSpacedDigit = true :=
    List.all_eq_true.mpr fun c hc => by rw [isSpacedDigit, hds.2 c hc, Bool.true_or]
  obtain ⟨c, cs, rfl⟩ := List.exists_cons_of_ne_nil hds.1
  rw [isNumeral, hspaced, Bool.and_true]
  exact hds.2 c List.mem_cons_self

theorem isExponent_exponent {exponent : List Char} {scale : Int} (h : Exponent exponent scale) :
    isExponent exponent = true := by
  have hrow : ∀ {ds}, Digits ds → isRow Char.isDigit ds = true := fun hds => by
    rw [isRow, List.isEmpty_eq_false_iff.mpr hds.1, List.all_eq_true.mpr hds.2]
    rfl
  cases h with
  | none => rfl
  | positive he hds => rcases he with rfl | rfl <;> simp [isExponent, hrow hds]
  | negative he hds => rcases he with rfl | rfl <;> simp [isExponent, hrow hds]

/-- The form of a whole number has no point. -/
theorem isFloatForm_whole {negative : Bool} (hds : Digits ds) :
    isFloatForm (signText negative ++ ds) = false := by
  have hunsigned := @unsigned_signText ds [] negative hds
  rw [List.append_nil] at hunsigned
  have hpoint : ∀ c ∈ ds, decide (c ≠ '.') = true := fun c hc => decide_eq_true fun h => by
    have hdigit := hds.2 c hc
    rw [h] at hdigit
    cases hdigit
  obtain ⟨-, hbehind⟩ := @Text.takeWhile_word (fun c => decide (c ≠ '.')) ds [] hpoint rfl
  rw [List.append_nil] at hbehind
  rw [isFloatForm, hunsigned, List.span_eq_takeWhile_dropWhile, hbehind]

theorem isIntForm_whole {negative : Bool} (hds : Digits ds) (hpart : isWholePart ds = true) :
    isIntForm (signText negative ++ ds) = true := by
  have hunsigned := @unsigned_signText ds [] negative hds
  rw [List.append_nil] at hunsigned
  simp only [isIntForm, hunsigned]
  split
  · rfl
  · cases hpart
  · cases hpart
  · rename_i tail hzero _ _
    cases (Json.isWholePart_zero hzero).symm.trans hpart
  · rw [isNumeral_digits hds, Bool.true_or]

theorem isFloatForm_real {negative : Bool} {whole fraction exponent : List Char} {scale : Int}
    (hwhole : Digits whole) (hfraction : Digits fraction) (hexponent : Exponent exponent scale) :
    isFloatForm (signText negative ++ (whole ++ '.' :: (fraction ++ exponent))) = true := by
  have hpoint : ∀ c ∈ whole, decide (c ≠ '.') = true := fun c hc => decide_eq_true fun h => by
    have hdigit := hwhole.2 c hc
    rw [h] at hdigit
    cases hdigit
  obtain ⟨hfront, hbehind⟩ := @Text.takeWhile_word (fun c => decide (c ≠ '.')) whole
    ('.' :: (fraction ++ exponent)) hpoint rfl
  have hspaced : ∀ c ∈ fraction, isSpacedDigit c = true := fun c hc => by
    rw [isSpacedDigit, hfraction.2 c hc, Bool.true_or]
  have hstop : exponent.head?.any isSpacedDigit = false := by
    cases hexponent with
    | none => rfl
    | positive he => rcases he with rfl | rfl <;> rfl
    | negative he => rcases he with rfl | rfl <;> rfl
  have htail : isFraction (fraction ++ exponent) = true := by
    rw [isFraction, (Text.takeWhile_word hspaced hstop).2]
    exact isExponent_exponent hexponent
  simp only [isFloatForm, unsigned_signText hwhole, List.span_eq_takeWhile_dropWhile, hfront,
    hbehind,
    isNumeral_digits hwhole, htail, Bool.and_self, Bool.true_or]

theorem withoutLineFeed_of_bare (h : ∀ c ∈ cs, IsBare c) : withoutLineFeed cs = cs := by
  rw [withoutLineFeed]
  split
  · rename_i tail heq
    have hmem : '\n' ∈ cs := List.mem_reverse.mp (by rw [heq]; exact List.mem_cons_self)
    exact absurd (h _ hmem) (by decide)
  · rfl

/-- **The tag of what starts like a number**, if it has the form of one. -/
theorem ofForm_number {c : Char} (hc : c.isDigit = true ∨ c = '-')
    (hbare : ∀ d ∈ c :: cs, IsBare d)
    (hform : isFloatForm (c :: cs) = true ∨ isIntForm (c :: cs) = true) :
    ofForm (String.ofList (c :: cs)) = if isFloatForm (c :: cs) then .float else .int := by
  have hword : truthWords.contains (String.ofList (c :: cs)) = false := by
    rw [List.contains_eq_mem, decide_eq_false_iff_not]
    exact fun hin => Number.ofList_ne hc (by decide) _ hin rfl
  have hsome : (String.ofList (c :: cs)).isEmpty = false := by
    rw [String.isEmpty_eq_false_iff]
    exact fun h => by simpa using congrArg String.toList h
  simp only [ofForm, hsome, String.toList_ofList, withoutLineFeed_of_bare hbare, hword,
    Bool.false_eq_true, if_false]
  rcases hform with h | h
  · rw [if_pos h, if_pos h]
  · rw [if_pos h]

end Tag

/-! ## What stands without quotes -/

/-- A scalar token stands for a scalar, and its node is no key with a meaning of its own. -/
structure Stands (text : String) (isPlain : Bool) (s : Scalar) : Prop where
  tag : Reader.scalarTag none isPlain text ≠ .merge ∧ Reader.scalarTag none isPlain text ≠ .value
  value : ∀ {g : Graph} {n : NodeId},
    g.node n = ⟨Reader.scalarTag none isPlain text, .scalar text⟩ → g.scalar? n = .ok (some s)

theorem Graph.text_of_node {g : Graph} {n : NodeId} {tag : Tag} {text : String}
    (h : g.node n = ⟨tag, .scalar text⟩) : g.tag n = tag ∧ g.text n = .ok text := by
  refine ⟨by rw [Graph.tag, h], ?_⟩
  rw [Graph.text, Graph.textWithin, Graph.content, h]

variable {text : String} {isPlain : Bool}

/-- A text in quotes stands for itself. -/
theorem stands_text (text : String) : Stands text false (.str text) where
  tag := ⟨Tag.noConfusion, Tag.noConfusion⟩
  value {g n} h := by
    obtain ⟨htag, htext⟩ := Graph.text_of_node h
    have hstr : g.tag n = .str := htag
    rw [Graph.scalar?, hstr]
    simp only [htext]
    rfl

theorem stands_null (htag : Tag.ofForm text = .null) : Stands text true .null where
  tag := by simp [Reader.scalarTag, htag]
  value {g n} h := by
    obtain ⟨hnull, htext⟩ := Graph.text_of_node h
    rw [Graph.scalar?, hnull]
    simp only [Reader.scalarTag, if_true, htag, htext]
    rfl

theorem stands_bool {b : Bool} (htag : Tag.ofForm text = .bool) (hb : truth text = .ok b) :
    Stands text true (.bool b) where
  tag := by simp [Reader.scalarTag, htag]
  value {g n} h := by
    obtain ⟨hbool, htext⟩ := Graph.text_of_node h
    rw [Graph.scalar?, hbool]
    simp only [Reader.scalarTag, if_true, htag, htext, Sequence.ok_bind, hb]
    rfl

theorem stands_int {m : Int} (htag : Tag.ofForm text = .int) (hm : Numeral.int text = .ok m) :
    Stands text true (.int m) where
  tag := by simp [Reader.scalarTag, htag]
  value {g n} h := by
    obtain ⟨hint, htext⟩ := Graph.text_of_node h
    rw [Graph.scalar?, hint]
    simp only [Reader.scalarTag, if_true, htag, htext, Sequence.ok_bind, hm]
    rfl

theorem stands_float {x : Binary64} (htag : Tag.ofForm text = .float)
    (hx : ∀ serial, Numeral.float serial text = .ok x) : Stands text true (.float x) where
  tag := by simp [Reader.scalarTag, htag]
  value {g n} h := by
    obtain ⟨hfloat, htext⟩ := Graph.text_of_node h
    rw [Graph.scalar?, hfloat]
    simp only [Reader.scalarTag, if_true, htag, htext, Sequence.ok_bind, hx]
    rfl

end Yaml

/-- **What stands without quotes stands for the scalar that it writes.** -/
theorem Json.Bare.stands {j : Json} (h : Bare j cs) :
    ∃ s, j.toData = .scalar s ∧ Yaml.Stands (String.ofList cs) true s := by
  have hbare : ∀ c ∈ cs, IsBare c := h.plain
  cases h with
  | null => exact ⟨.null, rfl, Yaml.stands_null (by decide)⟩
  | bool b =>
    have htag : ∀ b : Bool,
        Yaml.Tag.ofForm (String.ofList (if b then "true" else "false").toList) = .bool := by decide
    have htruth : Yaml.truth (String.ofList (if b then "true" else "false").toList) = .ok b := by
      cases b <;> rfl
    exact ⟨.bool b, rfl, Yaml.stands_bool (htag b) htruth⟩
  | @whole negative ds hds hpart hmost =>
    obtain ⟨c, tail, htext, hc⟩ := @head_number negative ds hds []
    rw [List.append_nil] at htext
    have htag : Yaml.Tag.ofForm (String.ofList (signText negative ++ ds)) = .int := by
      rw [htext] at hbare ⊢
      rw [Yaml.Tag.ofForm_number hc hbare, ← htext, Yaml.Tag.isFloatForm_whole hds]
      · rfl
      · exact .inr (by rw [← htext, Yaml.Tag.isIntForm_whole hds hpart])
    exact ⟨_, rfl, Yaml.stands_int htag (Yaml.Numeral.int_digits hds hpart hmost)⟩
  | @real negative whole fraction exponent scale hwhole hpart hfraction hexponent =>
    obtain ⟨c, tail, htext, hc⟩ :=
      @head_number negative whole hwhole ('.' :: (fraction ++ exponent))
    have hform := @Yaml.Tag.isFloatForm_real negative _ _ _ _ hwhole hfraction hexponent
    have htag : Yaml.Tag.ofForm (String.ofList
        (signText negative ++ (whole ++ '.' :: (fraction ++ exponent)))) = .float := by
      have hplain := hbare
      rw [htext] at hplain ⊢
      rw [Yaml.Tag.ofForm_number hc hplain, ← htext, hform]
      · rfl
      · exact .inl (by rw [← htext, hform])
    exact ⟨_, rfl, Yaml.stands_float htag fun serial =>
      Yaml.Numeral.float_real serial hwhole hfraction hexponent hbare⟩

end ApiMock
