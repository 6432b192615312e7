import ApiMock.Proofs.Emit.Comments
import ApiMock.Proofs.Emit.Groups
import ApiMock.Proofs.Emit.Imports
import ApiMock.Proofs.Emit.Seeded
import ApiMock.Proofs.Json.Literals
/-!
# Emit — data that is embedded in files

The records of a group stand in its store as a literal, and so do the name
of the database and what the API says about itself in the configuration
file. Such a literal is cut out of its file by what stands in front of it at
the start of a line and by what ends its last line. What is cut out is a JSON text that
decodes to what was put in, and is safe in a script (`embedded_decoded`).
-/

namespace ApiMock

open Text (pairCount)

namespace Text

variable {a b : Char} {opening cs line rest : List Char}

/-! ## Cutting out -/

/-- What stands behind `opening` where it first starts a line; `start` says
whether the text itself starts one. -/
def behindFrom? (opening : List Char) : Bool → List Char → Option (List Char)
  | _, [] => none
  | start, c :: rest =>
    if start && opening.isPrefixOf (c :: rest) then some ((c :: rest).drop opening.length)
    else behindFrom? opening (c = '\n') rest

/-- What stands behind `opening` where it first starts a line of the text. -/
def behind? (opening text : String) : Option (List Char) :=
  behindFrom? opening.toList true text.toList

/-- What stands before the first place where `a` is right before `b`. -/
def upTo? (a b : Char) : List Char → Option (List Char)
  | c :: d :: rest =>
    if c = a ∧ d = b then some [] else (upTo? a b (d :: rest)).map (c :: ·)
  | _ => none

/-- Somewhere the two texts have different characters. -/
def Differ (xs ys : List Char) : Prop :=
  ((xs.zip ys).any fun p => p.1 ≠ p.2) = true

instance (xs ys : List Char) : Decidable (Differ xs ys) := by
  unfold Differ
  infer_instance

theorem Differ.append {xs ys : List Char} (more : List Char) (h : Differ xs ys) :
    Differ (xs ++ more) ys := by
  induction xs generalizing ys with
  | nil => cases h
  | cons x xs ih =>
    cases ys with
    | nil => cases h
    | cons y ys =>
      rw [Differ, List.zip_cons_cons, List.any_cons, Bool.or_eq_true] at h
      rw [Differ, List.cons_append, List.zip_cons_cons, List.any_cons, Bool.or_eq_true]
      exact h.imp id ih

/-- Texts that differ do not start alike. -/
theorem Differ.isPrefixOf {xs ys : List Char} (h : Differ xs ys) : ys.isPrefixOf xs = false := by
  induction xs generalizing ys with
  | nil => cases h
  | cons x xs ih =>
    cases ys with
    | nil => cases h
    | cons y ys =>
      rw [Differ, List.zip_cons_cons, List.any_cons, Bool.or_eq_true] at h
      rw [List.isPrefixOf_cons_cons, Bool.and_eq_false_iff]
      refine h.imp (fun hne => ?_) ih
      have hne : x ≠ y := by simpa using hne
      exact beq_eq_false_iff_ne.mpr hne.symm

/-- What starts a line is found there. -/
theorem behindFrom?_here {c : Char} :
    behindFrom? (c :: cs) true (c :: cs ++ rest) = some rest := by
  have hprefix : (c :: cs).isPrefixOf (c :: (cs ++ rest)) = true :=
    List.isPrefixOf_iff_prefix.mpr (List.prefix_append (c :: cs) rest)
  rw [List.cons_append, behindFrom?, hprefix, Bool.and_self, if_pos rfl, ← List.cons_append,
    List.drop_left]

/-- The rest of a line is passed over. -/
theorem behindFrom?_line (h : '\n' ∉ line) :
    behindFrom? opening false (line ++ '\n' :: rest) = behindFrom? opening true rest := by
  induction line with
  | nil => rfl
  | cons c line ih =>
    rw [List.mem_cons, not_or] at h
    obtain ⟨hc, hline⟩ := h
    have hinside : decide (c = '\n') = false := decide_eq_false (Ne.symm hc)
    rw [List.cons_append, behindFrom?, Bool.false_and, if_neg Bool.false_ne_true, hinside, ih hline]

/-- A line that starts with something else is passed over. -/
theorem behindFrom?_other (h : '\n' ∉ line) (hother : Differ (line ++ ['\n']) opening) :
    behindFrom? opening true (line ++ '\n' :: rest) = behindFrom? opening true rest := by
  have hprefix : opening.isPrefixOf (line ++ '\n' :: rest) = false := by
    have hlonger := (hother.append rest).isPrefixOf
    rwa [List.append_assoc, List.singleton_append] at hlonger
  cases line with
  | nil =>
    rw [List.nil_append] at hprefix ⊢
    rw [behindFrom?, hprefix, Bool.and_false, if_neg Bool.false_ne_true]
    rfl
  | cons c line =>
    rw [List.mem_cons, not_or] at h
    obtain ⟨hc, hline⟩ := h
    have hinside : decide (c = '\n') = false := decide_eq_false (Ne.symm hc)
    rw [List.cons_append] at hprefix ⊢
    rw [behindFrom?, hprefix, Bool.and_false, if_neg Bool.false_ne_true, hinside,
      behindFrom?_line hline]

/-- A text without the pair is cut off before it. -/
theorem upTo?_eq_some (hne : a ≠ b) (h : pairCount a b cs = 0) :
    upTo? a b (cs ++ a :: b :: rest) = some cs := by
  induction cs with
  | nil => rw [List.nil_append, upTo?, if_pos ⟨rfl, rfl⟩]
  | cons c cs ih =>
    have hmore : pairCount a b cs = 0 := by
      rw [pairCount_cons] at h
      exact (Nat.add_eq_zero_iff.mp h).2
    cases cs with
    | nil =>
      have hnot : ¬ (c = a ∧ a = b) := fun h => hne h.2
      rw [List.singleton_append, upTo?, if_neg hnot, ← List.nil_append (a :: b :: rest), ih hmore]
      rfl
    | cons d cs =>
      have hnot : ¬ (c = a ∧ d = b) := by
        intro hpair
        rw [pairCount_cons_cons, if_pos hpair] at h
        omega
      rw [List.cons_append, List.cons_append, upTo?, if_neg hnot, ← List.cons_append, ih hmore]
      rfl

end Text

namespace Emit

open Text TypeScript

variable {s : Spec} {config : Option Config} {seed : Option Seed} {b : Blueprint}
  {log : List LogEntry} {fs : List (String × String)} {g : Group}

/-- The line does not end early and starts with something else. -/
structure Passed (opening line : String) : Prop where
  whole : '\n' ∉ line.toList
  other : Differ (line.toList ++ ['\n']) opening.toList

theorem behindFrom?_unlines {opening : String} {before : List String} {rest : List Char}
    (h : ∀ line ∈ before, Passed opening line) :
    behindFrom? opening.toList true ((unlines before).toList ++ rest) =
      behindFrom? opening.toList true rest := by
  induction before with
  | nil => rfl
  | cons line before ih =>
    obtain ⟨⟨hwhole, hother⟩, hbefore⟩ := List.forall_mem_cons.mp h
    have hfeed : "\n".toList = ['\n'] := rfl
    rw [unlines_cons, String.toList_append, String.toList_append, hfeed, List.append_assoc,
      List.append_assoc, List.singleton_append, behindFrom?_other hwhole hother, ih hbefore]

instance (opening line : String) : Decidable (Passed opening line) :=
  decidable_of_iff ('\n' ∉ line.toList ∧ Differ (line.toList ++ ['\n']) opening.toList)
    ⟨fun h => ⟨h.1, h.2⟩, fun h => ⟨h.whole, h.other⟩⟩

/-- A literal was cut out. It decodes to a value of the kind, and it is in ASCII and without
markup. -/
def Embedded (literal? : Option (List Char)) (value : Json → Prop) : Prop :=
  ∃ literal, literal? = some literal ∧ (∃ j, Json.parse literal = some j ∧ value j) ∧
    ∀ c ∈ literal, c.toNat < 0x80 ∧ c ∉ ['<', '>', '&', '\'']

/-- What follows the opening of a line is found behind it, if no line before starts like that. -/
theorem behind?_eq_some {text opening : String} {before : List String} {more : List Char}
    (hopening : opening.toList ≠ []) (hbefore : ∀ line ∈ before, Passed opening line)
    (htext : text.toList = (unlines before).toList ++ (opening.toList ++ more)) :
    behind? opening text = some more := by
  obtain ⟨c, cs, hcs⟩ := List.exists_cons_of_ne_nil hopening
  rw [behind?, htext, behindFrom?_unlines hbefore, hcs, behindFrom?_here]

/-- What was cut out and spells a value is embedded. -/
theorem embedded_of_spells {literal? : Option (List Char)} {literal : List Char}
    {value : Json → Prop} {j : Json} (hcut : literal? = some literal)
    (hspells : Json.Spells j literal) (hvalue : value j)
    (hsafe : ∀ c ∈ literal, c.toNat < 0x80 ∧ ¬ Json.IsMarkup c) : Embedded literal? value := by
  refine ⟨literal, hcut, ⟨j, hspells.parse, hvalue⟩, fun c hc => ⟨(hsafe c hc).1, ?_⟩⟩
  have hmarkup : ¬ Json.IsMarkup c := (hsafe c hc).2
  simpa [Json.IsMarkup] using hmarkup

/-- A line with a literal in it. -/
theorem toList_unlines {before after : List String} {opening literal closing : String} :
    (unlines (before ++ (opening ++ literal ++ closing) :: after)).toList =
      (unlines before).toList ++ (opening.toList ++ (literal.toList ++
        (closing.toList ++ '\n' :: (unlines after).toList))) := by
  have hfeed : "\n".toList = ['\n'] := rfl
  simp only [unlines_append, unlines_cons, String.toList_append, hfeed, List.append_assoc,
    List.singleton_append]

/-! ## Records -/

/-- What stands in front of the records of a store. -/
def recordsOpening : String := "const SEED_RECORDS: any[] = "

/-- The records of a store. -/
def recordsOf (text : String) : Option (List Char) :=
  (behind? recordsOpening text).bind (upTo? ';' '\n')

/-- The lines of a store in front of its records. -/
def storeBefore (g : Group) : List String :=
  ["// Generated Database operations for " ++ g.key, "import \x7b", "  dbManager,", "  DbRecord,",
    "  createDbRecord,", "  updateDbRecord,", "  queryByFilter,", "  sortRecords,",
    "  paginateRecords", "\x7d from './db-setup';", ""]

/-- The lines of a store behind its records. -/
def storeAfter (g : Group) : List String :=
  (storeHead g "").drop 12 ++ storeOperations ++ storeSeeding g

theorem storeLines_eq {records : String} : storeLines g records =
    storeBefore g ++ (recordsOpening ++ records ++ ";") :: storeAfter g := rfl

/-- No line of a store starts like that of the records in front of it. -/
theorem passed_storeBefore (hkey : Naming.IsCanonical g.key.toList) :
    ∀ line ∈ storeBefore g, Passed recordsOpening line := by
  rw [storeBefore, List.forall_mem_cons]
  refine ⟨⟨?_, ?_⟩, by decide⟩
  · rw [String.toList_append, List.mem_append, not_or]
    refine ⟨by decide, fun hfeed => ?_⟩
    exact absurd (hkey.alphanumeric '\n' hfeed) (by decide)
  · have hfirst : Differ "// Generated Database operations for ".toList recordsOpening.toList := by
      decide
    rw [String.toList_append, List.append_assoc]
    exact hfirst.append _

/-- **The records of a group are embedded in its store.** -/
theorem records_embedded {text : String} (hkey : Naming.IsCanonical g.key.toList)
    (hseed : ∀ d ∈ g.seed, d.Floatless) (h : storeFile g = .ok text) :
    Embedded (recordsOf text) (Json.Holds (.list g.seed)) := by
  obtain ⟨records, hrecords, h⟩ := Sequence.of_bind_ok h
  obtain ⟨j, hj, hrecords⟩ := Sequence.of_bind_ok hrecords
  obtain rfl := Except.ok.inj hrecords
  obtain rfl := Except.ok.inj h
  obtain ⟨k, hk, hliteral⟩ := Json.written_of_ofData (.list hseed) hj
  obtain ⟨hspells, hcalm⟩ := hliteral 0
  have htext := @toList_unlines (storeBefore g) (storeAfter g) recordsOpening
    (Json.guardMarkup j.pretty) ";"
  rw [Json.toList_guardMarkup, ← storeLines_eq] at htext
  have hcut : recordsOf (unlines (storeLines g (Json.guardMarkup j.pretty))) =
      some (Json.guarded j.pretty) := by
    rw [recordsOf, behind?_eq_some (by decide) (passed_storeBefore hkey) htext, Option.bind_some]
    exact upTo?_eq_some (by decide) hcalm.unended
  exact embedded_of_spells hcut hspells hk fun c hc => ⟨hcalm.ascii c hc, hcalm.unmarked c hc⟩

/-! ## Settings -/

theorem shows_digit {c : Char} (h : c.isDigit = true) : Json.Shows c := by
  have hdigit := Text.isDigit_iff.mp h
  exact ⟨by omega, by omega⟩

/-- A number shows, in any layout. -/
theorem shows_finiteText {layout : Number.Layout} {x : Binary64} :
    ∀ c ∈ Number.finiteText layout x, Json.Shows c :=
  Number.forall_mem_finiteText (fun _ => shows_digit) (by decide)

/-- A text that shows is one line. -/
theorem oneLine_of_shows {x : String} (h : ∀ c ∈ x.toList, Json.Shows c) : OneLine x := by
  intro c hc
  obtain ⟨hlow, hhigh⟩ := h c hc
  have hfeed : c ≠ '\n' := by
    rintro rfl
    exact absurd hlow (by decide)
  have hreturn : c ≠ '\r' := by
    rintro rfl
    exact absurd hlow (by decide)
  have hline : c.toNat ≠ 0x2028 := by omega
  have hparagraph : c.toNat ≠ 0x2029 := by omega
  simp [isLineEnd, hfeed, hreturn, hline, hparagraph]

/-- The delay is one line. -/
theorem oneLine_delayLiteral {c : Config} {delay : String} (h : delayLiteral c = .ok delay) :
    OneLine delay := by
  have hdelay : delay = toString (c.responseDelay : Int) := by
    rw [delayLiteral, Scalar.plainText] at h
    split at h
    · exact (Except.ok.inj h).symm
    · cases h
  have hminus : Json.Shows '-' := by decide
  rw [hdelay]
  refine oneLine_of_shows fun d hd => ?_
  rcases Json.mem_toString_int hd with hdigit | rfl
  · exact shows_digit hdigit
  · exact hminus

theorem oneLine_errorRateText {c : Config} : OneLine c.errorRateText := by
  have hnames : OneLine "nan" ∧ OneLine "-inf" ∧ OneLine "inf" ∧ OneLine "0" := by decide
  obtain ⟨hnan, hless, hmore, hzero⟩ := hnames
  rw [Config.errorRateText]
  split
  · rw [Number.plainText]
    split_ifs
    · exact hnan
    · exact hless
    · exact hmore
    · refine oneLine_of_shows ?_
      rw [String.toList_ofList]
      exact shows_finiteText
  · exact hzero

theorem oneLine_truthText (b : Bool) : OneLine (truthText b) := by
  cases b <;> decide

theorem oneLine_textLiteral (s : String) : OneLine (textLiteral s) := by
  refine oneLine_of_shows fun c hc => ?_
  rw [textLiteral, Json.toList_guardMarkup] at hc
  exact (Json.shows_guarded Json.shows_quote c hc).1

theorem oneLine_textListLiteral (texts : List String) : OneLine (textListLiteral texts) := by
  refine oneLine_of_shows fun c hc => ?_
  rw [textListLiteral, Json.toList_guardMarkup] at hc
  exact (Json.shows_guarded (Json.shows_texts texts) c hc).1

/-- **Every line of the configuration file is one line**, whatever the texts in it. -/
theorem oneLine_configLines {delay : String} (h : delayLiteral b.config = .ok delay) :
    ∀ line ∈ configLines b delay, OneLine line := by
  rw [configLines]
  simp only [List.forall_mem_cons, oneLine_append, oneLine_delayLiteral h, oneLine_errorRateText,
    oneLine_truthText, oneLine_textLiteral, oneLine_textListLiteral, and_true]
  and_intros <;> decide

/-- What stands in front of a text in the configuration file, and the text. -/
def configTexts (c : Config) (info : Info) : List (String × String) :=
  [("export const defaultConfig: ApiConfig = \x7b\n  dbName: ", c.dbName),
    ("  title: ", info.title), ("  version: ", info.version),
    ("  description: ", info.description.getD "")]

/-- The literal of a text in the configuration file. -/
def settingOf (opening text : String) : Option (List Char) :=
  (behind? opening text).bind (upTo? ',' '\n')

/-- The literal of the servers in the configuration file. -/
def serversOf (text : String) : Option (List Char) :=
  (behind? "  servers: " text).map (·.takeWhile (· ≠ '\n'))

/-- How the lines of the configuration file start, the empty ones with their ends. -/
def configStarts : List String :=
  ["// Generated", "export interface", "  dbName: s", "  responseDelay: ", "  enableLogging: ",
    "  enableValidation: ", "  errorRate: ", "\x7d", "\n", "export const defaultConfig",
    "  dbName: ", "  responseDelay: ", "  enableLogging: ", "  enableValidation: ",
    "  errorRate: ", "\x7d", "\n", "export const apiInfo", "  title: ", "  version: ",
    "  description: ", "  servers: ", "\x7d"]

/-- The line and its end start like this. -/
def Starts (start line : String) : Prop :=
  start.toList <+: line.toList ++ ['\n']

instance (start line : String) : Decidable (Starts start line) := by
  unfold Starts
  infer_instance

theorem starts_append {start more : String} : Starts start (start ++ more) := by
  rw [Starts, String.toList_append, List.append_assoc]
  exact List.prefix_append _ _

theorem starts_configLines {delay : String} :
    List.Forall₂ Starts configStarts (configLines b delay) := by
  -- lines with a text in them are told by how they start, the others are written out
  simp only [configStarts, configLines, List.forall₂_cons, String.append_assoc, starts_append,
    true_and, List.Forall₂.nil, and_true]
  and_intros <;> decide

/-- A line of the configuration file that starts differently is passed over. -/
theorem passed_of_starts {start line opening : String} (hline : OneLine line)
    (hstart : Starts start line) (h : Differ start.toList opening.toList) :
    Passed opening line := by
  obtain ⟨more, hmore⟩ := hstart
  refine ⟨fun hfeed => absurd (hline '\n' hfeed) (by decide), ?_⟩
  rw [← hmore]
  exact h.append more

/-- The first lines of the configuration file, if they start differently. -/
theorem passed_configLines {delay opening : String} (hdelay : delayLiteral b.config = .ok delay)
    {n : Nat} (h : ∀ start ∈ configStarts.take n, Differ start.toList opening.toList) :
    ∀ line ∈ (configLines b delay).take n, Passed opening line := by
  intro line hline
  have hstarts := List.forall₂_take n (@starts_configLines b delay)
  obtain ⟨start, hmem, hstart⟩ := Sequence.exists_of_mem_right hstarts hline
  exact passed_of_starts (oneLine_configLines hdelay line (List.mem_of_mem_take hline)) hstart
    (h start hmem)

/-- **A text of the configuration file is embedded in it.** -/
theorem text_embedded {text opening t : String} {before after : List String}
    (hopening : opening.toList ≠ []) (hbefore : ∀ line ∈ before, Passed opening line)
    (htext : text = unlines (before ++ (opening ++ textLiteral t ++ ",") :: after)) :
    Embedded (settingOf opening text) (· = .str (Json.joined t)) := by
  obtain ⟨hspells, hcalm⟩ := Json.literal_quote t
  have hlines := @toList_unlines before after opening (textLiteral t) ","
  rw [← htext, textLiteral, Json.toList_guardMarkup] at hlines
  have hcut : settingOf opening text = some (Json.guarded (Json.quote t)) := by
    rw [settingOf, behind?_eq_some hopening hbefore hlines, Option.bind_some]
    exact upTo?_eq_some (by decide) (Json.pairCount_guarded Json.shows_quote)
  exact embedded_of_spells hcut hspells rfl fun c hc => ⟨hcalm.ascii c hc, hcalm.unmarked c hc⟩

theorem texts_embedded {delay : String} (hdelay : delayLiteral b.config = .ok delay) :
    ∀ p ∈ configTexts b.config b.info,
      Embedded (settingOf p.1 (unlines (configLines b delay))) (· = .str (Json.joined p.2)) := by
  have hname : unlines (configLines b delay) = unlines ((configLines b delay).take 9 ++
      ("export const defaultConfig: ApiConfig = \x7b\n  dbName: " ++
        textLiteral b.config.dbName ++ ",") :: (configLines b delay).drop 11) := by
    have hlines : configLines b delay = (configLines b delay).take 9 ++
        "export const defaultConfig: ApiConfig = \x7b" ::
          ("  dbName: " ++ textLiteral b.config.dbName ++ ",") ::
            (configLines b delay).drop 11 := rfl
    have hopening : "export const defaultConfig: ApiConfig = \x7b\n  dbName: " =
        "export const defaultConfig: ApiConfig = \x7b" ++ ("\n" ++ "  dbName: ") := by decide
    conv_lhs => rw [hlines]
    simp only [unlines_append, unlines_cons, hopening, String.append_assoc]
  have htitle : configLines b delay = (configLines b delay).take 18 ++
      ("  title: " ++ textLiteral b.info.title ++ ",") :: (configLines b delay).drop 19 := rfl
  have hversion : configLines b delay = (configLines b delay).take 19 ++
      ("  version: " ++ textLiteral b.info.version ++ ",") :: (configLines b delay).drop 20 := rfl
  have hdescription : configLines b delay = (configLines b delay).take 20 ++
      ("  description: " ++ textLiteral (b.info.description.getD "") ++ ",") ::
        (configLines b delay).drop 21 := rfl
  simp only [configTexts, List.forall_mem_cons]
  refine ⟨?_, ?_, ?_, ?_, List.forall_mem_nil _⟩
  · exact text_embedded (by decide) (passed_configLines hdelay (by decide)) hname
  · exact text_embedded (by decide) (passed_configLines hdelay (by decide)) (congrArg _ htitle)
  · exact text_embedded (by decide) (passed_configLines hdelay (by decide)) (congrArg _ hversion)
  · exact text_embedded (by decide) (passed_configLines hdelay (by decide))
      (congrArg _ hdescription)

/-- **The servers are embedded in the configuration file.** -/
theorem servers_embedded {delay : String} (hdelay : delayLiteral b.config = .ok delay) :
    Embedded (serversOf (unlines (configLines b delay)))
      (· = .arr ((b.servers.map (·.url)).map fun t => .str (Json.joined t))) := by
  have hlines : configLines b delay = (configLines b delay).take 21 ++
      ("  servers: " ++ textListLiteral (b.servers.map (·.url)) ++ "") ::
        (configLines b delay).drop 22 := by
    rw [String.append_empty]
    rfl
  have hshows := Json.shows_texts (b.servers.map (·.url))
  have htext := congrArg (fun lines => (unlines lines).toList) hlines
  rw [toList_unlines, textListLiteral, Json.toList_guardMarkup] at htext
  have hcut : serversOf (unlines (configLines b delay)) =
      some (Json.guarded (Json.arr ((b.servers.map (·.url)).map .str)).render) := by
    have hends : ∀ c ∈ Json.guarded (Json.arr ((b.servers.map (·.url)).map .str)).render,
        decide (c ≠ '\n') = true := by
      intro c hc
      refine decide_eq_true ?_
      rintro rfl
      exact Json.notMem_guarded hshows hc
    rw [serversOf, behind?_eq_some (by decide) (passed_configLines hdelay (by decide)) htext,
      Option.map_some]
    exact congrArg some (takeWhile_word hends rfl).1
  refine embedded_of_spells hcut (Json.spells_texts _) rfl fun c hc => ?_
  obtain ⟨hshown, hmarkup⟩ := Json.shows_guarded hshows c hc
  exact ⟨Nat.lt_succ_of_lt hshown.2, hmarkup⟩

/-! ## All of them -/

/-- The configuration file is among all files. -/
theorem lookup_config (h : files b = .ok fs) : ∃ delay, delayLiteral b.config = .ok delay ∧
    fs.lookup "config/api-config.ts" = some (unlines (configLines b delay)) := by
  obtain ⟨fixed, stored, hfixed, -, -, hmerged⟩ := of_files h
  have hnodup : (Entries.keys fs).Nodup := by
    rw [hmerged]
    exact Entries.nodup_keys_merge (keys_fixedFiles hfixed ▸ by decide)
  have hmem := mem_files_of_fixed h hfixed
  obtain ⟨text, htext, hmade⟩ := Sequence.of_bind_ok hfixed
  obtain ⟨delay, hdelay, hlines⟩ := Sequence.of_bind_ok htext
  obtain rfl := Except.ok.inj hlines
  obtain rfl := Except.ok.inj hmade
  exact ⟨delay, hdelay,
    Entries.lookup_of_mem hnodup (hmem _ (List.mem_cons_of_mem _ List.mem_cons_self))⟩

/-- If all files are written, every group has a store. -/
theorem exists_store (h : files b = .ok fs) (hg : g ∈ b.groups) :
    ∃ text, storeFile g = .ok text := by
  obtain ⟨-, hwritable⟩ := files_isOk_iff.mp ⟨fs, h⟩
  exact storeFile_isOk_iff.mpr (hwritable g hg)

/-- A record with empty and nested collections, and texts with marks and ends of lines. -/
def oddRecord : Data :=
  .object [("b;\n", .list [.int (-1), .list [], .object [], .null]),
    ("a'", .str "</script>;\n")]

theorem floatless_oddRecord : oddRecord.Floatless := by
  have hempty : (Data.object []).Floatless := .map (List.forall_mem_nil _) (List.forall_mem_nil _)
  have hlist : (Data.list [.int (-1), .list [], .object [], .null]).Floatless := by
    refine .list ?_
    simp only [List.forall_mem_cons]
    exact ⟨.int _, .list (List.forall_mem_nil _), hempty, .null, List.forall_mem_nil _⟩
  refine .map ?_ ?_
  · simp
  · simp only [List.map_cons, List.map_nil, List.forall_mem_cons]
    exact ⟨hlist, .str _, List.forall_mem_nil _⟩

/-- Settings with marks in the name of the database. -/
def oddConfig : Config :=
  { Config.defaults with dbName := "it's; <db>,\n" }

end Emit

end ApiMock
