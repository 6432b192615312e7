import ApiMock.Proofs.Json.Literals
import ApiMock.Proofs.Naming.Identifier
import ApiMock.Proofs.TypeScript.Choices
import ApiMock.Proofs.TypeScript.References
/-!
# TypeScript — what counts of a text

A reader of a module passes over comments, and over what stands between two
words but that something stands there. `skim` is what is left of a text for
it: the characters outside of comments, with one blank for each gap, and the
texts between quotes as they are. A text that goes on over the end of its
line is broken, and nothing behind it counts.

What a type is printed as takes the reader from code to code, if no text in
it breaks (`selfContained_of_ofNode`), and a comment that is closed by its end only
does not count at all (`silent_commentLine`).
-/

namespace ApiMock

namespace TypeScript

open Text (pairCount pairCount_cons pairCount_append_of_not)

/-! ## Reading -/

/-- Where one stands in a text. -/
inductive Spot where
  /-- In code; with a gap if one is passed since the last character that counts. -/
  | code (gap : Bool)
  /-- Behind a slash that may open a comment. -/
  | slash (gap : Bool)
  | quoted (mark : Char)
  | escaped (mark : Char)
  | comment
  /-- Behind a star in a comment. -/
  | star
  /-- In a comment that its line ends. -/
  | line
  | broken
  deriving DecidableEq

/-- A character that stands in a gap. -/
def isGap (c : Char) : Bool := c = ' ' || c = '\t' || isLineEnd c

/-- What a gap counts for. -/
def gapText (gap : Bool) : List Char := if gap then [' '] else []

namespace Spot

/-- Behind a character of code. -/
def enter (c : Char) : Spot := if c = '\'' ∨ c = '"' then quoted c else code false

/-- Where one stands behind a character. -/
def after : Spot → Char → Spot
  | code gap, c => if isGap c then code true else if c = '/' then slash gap else enter c
  | slash _, c =>
    if c = '*' then comment else if c = '/' then line else if isGap c then code true else enter c
  | quoted m, c =>
    if c = m then code false
    else if c = '\\' then escaped m
    else if c = '\n' ∨ c = '\r' then broken
    else quoted m
  | escaped m, _ => quoted m
  | comment, c => if c = '*' then star else comment
  | star, c => if c = '/' then code true else if c = '*' then star else comment
  | line, c => if isLineEnd c then code true else line
  | broken, _ => broken

/-- What counts once a character is read. -/
def kept : Spot → Char → List Char
  | code gap, c => if isGap c ∨ c = '/' then [] else gapText gap ++ [c]
  | slash gap, c =>
    if c = '*' ∨ c = '/' then [] else gapText gap ++ '/' :: (if isGap c then [] else [c])
  | quoted _, c | escaped _, c => [c]
  | _, _ => []

/-- Where one stands behind a text. -/
def run (s : Spot) (cs : List Char) : Spot := cs.foldl after s

/-- A text may end here. -/
def isEnd : Spot → Bool
  | code _ | line => true
  | _ => false

end Spot

/-- What counts of a text. -/
def skim : Spot → List Char → List Char
  | _, [] => []
  | s, c :: cs => s.kept c ++ skim (s.after c) cs

/-- **What is read of a text**: what counts of it, unless a text or a comment in it is not
closed. A gap in front of it does not matter. -/
def readCode (text : String) : Option String :=
  if ((Spot.code true).run text.toList).isEnd then
    some (String.ofList (skim (.code true) text.toList))
  else none

example :
    readCode "/* a: b */ c?: 'it\\'s /* d */';\n  // e\n" =
      some " c?: 'it\\'s /* d */';" := by
  decide

variable {s : Spot} {c m : Char} {cs xs ys xs' ys' : List Char} {x y : String}

namespace Spot

@[simp] theorem run_nil : s.run [] = s := rfl

theorem run_cons : s.run (c :: cs) = (s.after c).run cs := rfl

theorem run_append : s.run (xs ++ ys) = (s.run xs).run ys := List.foldl_append

end Spot

theorem skim_cons : skim s (c :: cs) = s.kept c ++ skim (s.after c) cs := rfl

theorem skim_append : skim s (xs ++ ys) = skim s xs ++ skim (s.run xs) ys := by
  induction xs generalizing s with
  | nil => rfl
  | cons c xs ih =>
    rw [List.cons_append, skim_cons, ih, skim_cons, List.append_assoc, Spot.run_cons]

/-- The two texts count the same from here on, and lead to the same spot. -/
structure CountsAs (s : Spot) (xs ys : List Char) : Prop where
  run : s.run xs = s.run ys
  skim : skim s xs = skim s ys

namespace CountsAs

theorem refl : CountsAs s xs xs := ⟨rfl, rfl⟩

theorem append (h : CountsAs s xs ys) (h' : CountsAs (s.run xs) xs' ys') :
    CountsAs s (xs ++ xs') (ys ++ ys') where
  run := by rw [Spot.run_append, Spot.run_append, ← h.run, h'.run]
  skim := by rw [skim_append, skim_append, h.skim, ← h.run, h'.skim]

theorem readCode_eq (h : CountsAs (.code true) x.toList y.toList) : readCode x = readCode y := by
  rw [readCode, readCode, h.run, h.skim]

end CountsAs

/-! ## Comments -/

/-- Where a line starts: behind a gap in code, unless a text is broken. -/
def Spot.Fresh (s : Spot) : Prop := s = .code true ∨ s = .broken

/-- Behind a broken text nothing counts. -/
theorem run_broken : Spot.broken.run cs = .broken ∧ skim .broken cs = [] := by
  induction cs with
  | nil => exact ⟨rfl, rfl⟩
  | cons c cs ih => exact ih

/-- **A comment goes on** as long as nothing closes it. -/
theorem run_comment (hs : s = .comment ∨ s = .star ∧ cs.head? ≠ some '/')
    (h : pairCount '*' '/' cs = 0) :
    (s.run cs = .comment ∨ s.run cs = .star) ∧ skim s cs = [] := by
  induction cs generalizing s with
  | nil => exact ⟨hs.imp_right And.left, rfl⟩
  | cons c cs ih =>
    rw [pairCount_cons, Nat.add_eq_zero_iff] at h
    obtain ⟨hpair, hcs⟩ := h
    have hafter : s.after c = if c = '*' then .star else .comment := by
      rcases hs with rfl | ⟨rfl, hhead⟩
      · rfl
      · have hslash : c ≠ '/' := fun hc => hhead (congrArg some hc)
        rw [Spot.after, if_neg hslash]
    have hkept : s.kept c = [] := by
      rcases hs with rfl | ⟨rfl, -⟩ <;> rfl
    have hnext : s.after c = .comment ∨ s.after c = .star ∧ cs.head? ≠ some '/' := by
      rw [hafter]
      split
      · rename_i hc
        refine .inr ⟨rfl, fun hhead => ?_⟩
        rw [if_pos ⟨hc, hhead⟩] at hpair
        exact absurd hpair Nat.one_ne_zero
      · exact .inl rfl
    obtain ⟨hrun, hskim⟩ := ih hnext hcs
    rw [Spot.run_cons, skim_cons, hkept, hskim]
    exact ⟨hrun, rfl⟩

/-- Behind a gap more of it does not count. -/
theorem silent_gaps (h : ∀ c ∈ cs, isGap c = true) : CountsAs (.code true) cs [] := by
  induction cs with
  | nil => exact .refl
  | cons c cs ih =>
    obtain ⟨hc, hgaps⟩ := List.forall_mem_cons.mp h
    have hafter : (Spot.code true).after c = .code true := if_pos hc
    have hkept : (Spot.code true).kept c = [] := if_pos (.inl hc)
    constructor
    · rw [Spot.run_cons, hafter]
      exact (ih hgaps).run
    · rw [skim_cons, hafter, hkept]
      exact (ih hgaps).skim

/-- Nor does a comment that nothing in it closes. -/
theorem silent_comment (h : pairCount '*' '/' cs = 0) :
    CountsAs (.code true) ('/' :: '*' :: cs ++ " */\n".toList) [] := by
  obtain ⟨hrun, hskim⟩ := @run_comment .comment cs (.inl rfl) h
  have hfirst : (Spot.code true).run ('/' :: '*' :: cs) = Spot.comment.run cs := rfl
  have hkept : skim (.code true) ('/' :: '*' :: cs) = skim .comment cs := rfl
  constructor
  · rw [Spot.run_append, hfirst]
    rcases hrun with hrun | hrun <;> rw [hrun] <;> decide
  · rw [skim_append, hkept, hskim, hfirst]
    rcases hrun with hrun | hrun <;> rw [hrun] <;> decide

/-- **A comment on a line of its own does not count**, if nothing in it closes it. -/
theorem silent_commentLine {indent : String} {comment : Option String} (hs : s.Fresh)
    (hindent : ∀ c ∈ indent.toList, isGap c = true)
    (hcomment : ∀ text ∈ comment, pairCount '*' '/' text.toList = 0) :
    CountsAs s (commentLine indent comment).toList [] := by
  rcases hs with rfl | rfl
  · cases comment with
    | none => exact .refl
    | some text =>
      have hinside : pairCount '*' '/' ("* " ++ text).toList = 0 := by
        rw [Emit.pairCount_line (by simp), hcomment text rfl]
        rfl
      have htext : (commentLine indent (some text)).toList =
          indent.toList ++ ('/' :: '*' :: ("* " ++ text).toList ++ " */\n".toList) := by
        simp only [commentLine, String.toList_append, List.append_assoc]
        rfl
      have hgaps := silent_gaps hindent
      rw [htext]
      refine hgaps.append ?_
      rw [hgaps.run]
      exact silent_comment hinside
  · exact ⟨run_broken.1, run_broken.2⟩

/-! ## Texts that lead from code to code -/

/-- In code, unless a text is broken. -/
def Spot.Steady (s : Spot) : Prop := (∃ gap, s = .code gap) ∨ s = .broken

/-- The text leads from code to code, unless a text in it is broken. -/
def SelfContained (cs : List Char) : Prop := ∀ s : Spot, s.Steady → (s.run cs).Steady

/-- In a text between quotes, unless it is broken. -/
def Spot.Inside (m : Char) (s : Spot) : Prop := s = .quoted m ∨ s = .broken

theorem Spot.Fresh.steady (h : s.Fresh) : s.Steady := h.imp_left fun h => ⟨true, h⟩

theorem Spot.steady_broken : (Spot.broken.run cs).Steady := .inr run_broken.1

/-- A text in a quoted one leads to no other place than the end of its line. -/
theorem inside_flatMap {α : Type} {f : α → List Char} {as : List α}
    (h : ∀ a ∈ as, ((Spot.quoted m).run (f a)).Inside m) (hs : s.Inside m) :
    (s.run (as.flatMap f)).Inside m := by
  induction as generalizing s with
  | nil => exact hs
  | cons a as ih =>
    obtain ⟨ha, has⟩ := List.forall_mem_cons.mp h
    rw [List.flatMap_cons, Spot.run_append]
    refine ih has ?_
    rcases hs with rfl | rfl
    · exact ha
    · exact .inr run_broken.1

namespace SelfContained

theorem nil : SelfContained [] := fun _ => id

theorem append (hx : SelfContained xs) (hy : SelfContained ys) : SelfContained (xs ++ ys) := by
  intro s hs
  rw [Spot.run_append]
  exact hy _ (hx s hs)

theorem intercalate {sep : List Char} {parts : List (List Char)} (hsep : SelfContained sep)
    (h : ∀ part ∈ parts, SelfContained part) : SelfContained (List.intercalate sep parts) :=
  Sequence.intercalate_closed nil (fun _ _ hx hy => hx.append hy) hsep h

/-- A text without slashes and quotes. -/
theorem of_plain (h : ∀ c ∈ cs, c ∉ ['/', '\'', '"']) : SelfContained cs := by
  intro s hs
  induction cs generalizing s with
  | nil => exact hs
  | cons c cs ih =>
    obtain ⟨hc, hcs⟩ := List.forall_mem_cons.mp h
    simp only [List.mem_cons, List.not_mem_nil, or_false, not_or] at hc
    obtain ⟨hslash, hsingle, hdouble⟩ := hc
    refine ih hcs _ ?_
    have henter : Spot.enter c = .code false := if_neg fun h => h.elim hsingle hdouble
    rcases hs with ⟨gap, rfl⟩ | rfl
    · rw [Spot.after, if_neg hslash, henter]
      split
      · exact .inl ⟨true, rfl⟩
      · exact .inl ⟨false, rfl⟩
    · exact .inr rfl

/-- A text between quotes that does not leave them. -/
theorem quoted (hm : m = '\'' ∨ m = '"') (h : ((Spot.quoted m).run cs).Inside m) :
    SelfContained (m :: (cs ++ [m])) := by
  rintro s (⟨gap, rfl⟩ | rfl)
  · have hopen : (Spot.code gap).after m = .quoted m := by
      rcases hm with rfl | rfl <;> rfl
    rw [Spot.run_cons, hopen, Spot.run_append]
    rcases h with h | h
    · rw [h, Spot.run_cons, Spot.after, if_pos rfl]
      exact .inl ⟨false, rfl⟩
    · rw [h]
      exact Spot.steady_broken
  · exact Spot.steady_broken

/-- Behind it a line starts, if what ends the line before comes next. -/
theorem fresh_append {ending : List Char} (h : SelfContained cs) (hs : s.Steady)
    (hending : ∀ gap, (Spot.code gap).run ending = .code true) : (s.run (cs ++ ending)).Fresh := by
  rw [Spot.run_append]
  rcases h s hs with ⟨gap, hcode⟩ | hbroken
  · rw [hcode]
    exact .inl (hending gap)
  · rw [hbroken]
    exact .inr run_broken.1

end SelfContained

/-! ## What types are printed with -/

theorem selfContained_stringLiteral (s : String) : SelfContained (stringLiteral s).toList := by
  rw [toList_stringLiteral, quotedFrom]
  refine .quoted (.inl rfl) (inside_flatMap (fun c _ => ?_) (.inl rfl))
  rw [escapedChar]
  split_ifs with hslash hquote
  · exact .inl rfl
  · exact .inl rfl
  · have hafter : (Spot.quoted '\'').run [c] =
        if c = '\n' ∨ c = '\r' then .broken else .quoted '\'' := by
      rw [Spot.run_cons, Spot.run_nil, Spot.after, if_neg hquote, if_neg hslash]
    rw [hafter]
    split
    · exact .inr rfl
    · exact .inl rfl

/-- What shows stays in a text between double quotes, other than a quote and a backslash. -/
theorem run_quoted_of_shows (h : ∀ c ∈ cs, Json.Shows c ∧ c ≠ '"' ∧ c ≠ '\\') :
    (Spot.quoted '"').run cs = .quoted '"' := by
  induction cs with
  | nil => rfl
  | cons c cs ih =>
    obtain ⟨⟨hshows, hquote, hslash⟩, hcs⟩ := List.forall_mem_cons.mp h
    have hends : ¬ (c = '\n' ∨ c = '\r') := by
      rintro (rfl | rfl) <;> exact absurd hshows (by decide)
    rw [Spot.run_cons, Spot.after, if_neg hquote, if_neg hslash, if_neg hends]
    exact ih hcs

theorem run_escapeUnit (n : Nat) : (Spot.quoted '"').run (Json.escapeUnit n) = .quoted '"' := by
  have hdigits : ∀ d < 16, Text.hexDigit d ≠ '"' ∧ Text.hexDigit d ≠ '\\' := by decide
  have hescape : (Spot.quoted '"').run (Json.escapeUnit n) = (Spot.quoted '"').run (Text.hex 4 n) :=
    rfl
  rw [hescape]
  refine run_quoted_of_shows fun c hc => ⟨@Json.shows_escapeUnit n c ?_, ?_⟩
  · exact List.mem_cons_of_mem _ (List.mem_cons_of_mem _ hc)
  · obtain ⟨i, -, rfl⟩ := List.mem_map.mp hc
    exact hdigits _ (Nat.mod_lt _ (by decide))

/-- **A JSON text leads from code to code**, since nothing in it closes it early. -/
theorem selfContained_quote (s : String) : SelfContained (Json.quote s).toList := by
  rw [Json.quote, String.toList_ofList]
  refine .quoted (.inr rfl) (inside_flatMap (fun n hn => .inl ?_) (.inl rfl))
  have hshows := @Json.shows_escapePoint n
  have hwrites := Json.writes_escapePoint (Text.points_lt n hn)
  generalize Json.escapePoint n = piece at hshows hwrites
  cases hwrites with
  | plain c hcontrol hquote hslash =>
    exact run_quoted_of_shows fun d hd => ⟨hshows d hd, by simp_all⟩
  | letter l c h => rfl
  | unit h => exact run_escapeUnit n
  | halves hlow hhigh => rw [Spot.run_append, run_escapeUnit, run_escapeUnit]

/-- A digit is neither a slash nor a quote. -/
theorem isDigit_plain (h : c.isDigit = true) : c ∉ ['/', '\'', '"'] := by
  intro hc
  have hmarks : ∀ d ∈ ['/', '\'', '"'], d.isDigit = false := by decide
  rw [hmarks c hc] at h
  cases h

theorem selfContained_int (n : Int) : SelfContained (toString n).toList := by
  have hminus : '-' ∉ ['/', '\'', '"'] := by decide
  refine .of_plain fun c hc => ?_
  rcases Json.mem_toString_int hc with hdigit | rfl
  · exact isDigit_plain hdigit
  · exact hminus

theorem selfContained_plainText (x : Binary64) : SelfContained (Number.plainText x).toList := by
  rw [Number.plainText]
  split_ifs
  · exact .of_plain (by decide)
  · exact .of_plain (by decide)
  · exact .of_plain (by decide)
  · rw [String.toList_ofList]
    exact .of_plain (Number.forall_mem_finiteText (fun _ => isDigit_plain) (by decide))

theorem selfContained_scalarText (j : Json) : SelfContained j.scalarText.toList := by
  cases j with
  | null => exact .of_plain (by decide)
  | bool b => cases b <;> exact .of_plain (by decide)
  | int n => exact selfContained_int n
  | float x =>
    rw [Json.scalarText, Json.floatText]
    split_ifs
    · exact .of_plain (by decide)
    · exact .of_plain (by decide)
    · exact .of_plain (by decide)
    · exact selfContained_plainText x
  | str s => exact selfContained_quote s
  | arr items =>
    rw [Json.scalarText]
    exact .of_plain (by decide)
  | obj es =>
    rw [Json.scalarText]
    exact .of_plain (by decide)

/-- Parts between brackets, with commas between them. -/
theorem selfContained_collection {opening closing : String} {parts : List String}
    (hopening : SelfContained opening.toList) (hclosing : SelfContained closing.toList)
    (h : ∀ part ∈ parts, SelfContained part.toList) :
    SelfContained (opening ++ String.intercalate ", " parts ++ closing).toList := by
  rw [String.toList_append, String.toList_append, String.toList_intercalate]
  refine (hopening.append (.intercalate (.of_plain (by decide)) ?_)).append hclosing
  exact List.forall_mem_map.mpr h

theorem selfContained_json (j : Json) : SelfContained j.render.toList := by
  have both : (∀ j : Json, SelfContained j.render.toList) ∧
      (∀ es, ∀ part ∈ Json.renderEntries es, SelfContained part.toList) ∧
      ∀ items, ∀ part ∈ Json.renderItems items, SelfContained part.toList := by
    refine Json.render.mutual_induct _ _ _ ?array ?object ?scalar ?noItem ?item ?noEntry ?entry
    case array =>
      intro items ih
      rw [Json.render]
      exact selfContained_collection (.of_plain (by decide)) (.of_plain (by decide)) ih
    case object =>
      intro es ih
      rw [Json.render]
      exact selfContained_collection (.of_plain (by decide)) (.of_plain (by decide)) ih
    case scalar =>
      intro j harr hobj
      rw [Json.render]
      · exact selfContained_scalarText j
      · exact harr
      · exact hobj
    case noItem => exact List.forall_mem_nil _
    case item =>
      intro j rest ih ihrest
      rw [Json.renderItems]
      exact List.forall_mem_cons.mpr ⟨ih, ihrest⟩
    case noEntry => exact List.forall_mem_nil _
    case entry =>
      intro k j rest ih ihrest
      rw [Json.renderEntries]
      refine List.forall_mem_cons.mpr ⟨?_, ihrest⟩
      rw [String.toList_append, String.toList_append]
      exact ((selfContained_quote k).append (.of_plain (by decide))).append ih
  exact both.1 j

theorem selfContained_literal (l : Literal) : SelfContained l.render.toList := by
  cases l with
  | text s => exact selfContained_stringLiteral s
  | null => exact .of_plain (by decide)
  | bool b => cases b <;> exact .of_plain (by decide)
  | int n => exact selfContained_int n
  | float x => exact selfContained_plainText x
  | structured j => exact selfContained_json j

/-- **A key leads from code to code**, quoted or not. -/
theorem selfContained_key (k : PropertyKey) : SelfContained k.render.toList := by
  have hmarks : ∀ d ∈ ['/', '\'', '"'], ¬ (Naming.isIdentifierPart d = true ∨ d = '\n') := by decide
  have htoken : SelfContained (keyToken k.name).toList := by
    rw [keyToken]
    split
    · rename_i hname
      exact .of_plain fun c hc hmem =>
        hmarks c hmem (Naming.isIdentifierPart_or_of_mem hname c hc)
    · exact selfContained_quote k.name
  rw [PropertyKey.render, propertyKey]
  split
  · exact htoken
  · rw [String.toList_append]
    exact htoken.append (.of_plain (by decide))

theorem selfContained_pascal (name : String) : SelfContained (Naming.pascal name).toList := by
  have hmarks : ∀ d ∈ ['/', '\'', '"'], d.isAlphanum = false := by decide
  refine .of_plain fun c hc hmem => ?_
  exact absurd (Naming.isAlphanumeric_pascal name c hc) (by rw [hmarks c hmem]; decide)

theorem selfContained_ofDeclared (declared : Option String) :
    SelfContained (TypeExpr.ofDeclared declared).render.toList := by
  rw [TypeExpr.ofDeclared]
  cases declared.bind Keyword.ofDeclared? with
  | none => exact .of_plain (by decide)
  | some k => cases k <;> exact .of_plain (by decide)

theorem selfContained_arrayText (h : SelfContained x.toList) :
    SelfContained (arrayText x).toList := by
  rw [arrayText]
  split
  · rw [String.toList_append, String.toList_append]
    exact ((SelfContained.of_plain (by decide)).append h).append (.of_plain (by decide))
  · rw [String.toList_append]
    exact h.append (.of_plain (by decide))

theorem selfContained_object {ms : List (PropertyKey × TypeExpr)}
    (h : ∀ m ∈ ms, SelfContained m.2.render.toList) :
    SelfContained (TypeExpr.object ms).render.toList := by
  have hmembers : ∀ part ∈ TypeExpr.renderMembers ms, SelfContained part.toList := by
    induction ms with
    | nil => exact List.forall_mem_nil _
    | cons m rest ih =>
      obtain ⟨hm, hrest⟩ := List.forall_mem_cons.mp h
      rw [TypeExpr.renderMembers]
      refine List.forall_mem_cons.mpr ⟨?_, ih hrest⟩
      rw [String.toList_append, String.toList_append]
      exact ((selfContained_key m.1).append (.of_plain (by decide))).append hm
  cases ms with
  | nil =>
    rw [TypeExpr.render]
    exact .of_plain (by decide)
  | cons m rest =>
    rw [TypeExpr.render, String.toList_append, String.toList_append, String.toList_intercalate]
    · have hsep : SelfContained "; ".toList := .of_plain (by decide)
      have hparts := hsep.intercalate (List.forall_mem_map.mpr hmembers)
      exact ((SelfContained.of_plain (by decide)).append hparts).append (.of_plain (by decide))
    · exact List.cons_ne_nil m rest

/-- **The type of a node leads from code to code.** -/
theorem selfContained_of_ofNode {known : List String} {node : Schema} {t : TypeExpr}
    (h : TypeExpr.ofNode known node = .ok t) : SelfContained t.render.toList := by
  induction node using Schema.induct generalizing t with
  | unknown description =>
    rw [TypeExpr.ofNode] at h
    obtain rfl := Except.ok.inj h
    exact .of_plain (by decide)
  | reference target description =>
    rw [TypeExpr.ofNode] at h
    obtain rfl := Except.ok.inj h
    split
    · exact selfContained_pascal target
    · exact .of_plain (by decide)
  | primitive declared format description =>
    rw [TypeExpr.ofNode] at h
    obtain rfl := Except.ok.inj h
    exact selfContained_ofDeclared _
  | bare declared format description =>
    rw [TypeExpr.ofNode] at h
    obtain rfl := Except.ok.inj h
    exact selfContained_arrayText (x := "any") (.of_plain (by decide))
  | array declared format description items ih =>
    rw [TypeExpr.ofNode] at h
    obtain ⟨t, ht, rfl⟩ := Sequence.of_map_ok h
    rw [TypeExpr.render]
    exact selfContained_arrayText (ih ht)
  | object declared format description properties required ih =>
    rw [TypeExpr.ofNode] at h
    obtain ⟨ms, hms, rfl⟩ := Sequence.of_map_ok h
    refine selfContained_object fun m hm => ?_
    obtain ⟨e, he, -, ht⟩ := Sequence.exists_of_mem_right (TypeExpr.forall₂_of_ofMembers hms) hm
    exact ih e he ht
  | enumeration declared format description values =>
    cases values with
    | nil =>
      rw [TypeExpr.ofNode] at h
      obtain rfl := Except.ok.inj h
      exact selfContained_ofDeclared _
    | cons v values =>
      rw [TypeExpr.ofNode] at h
      · obtain ⟨ls, -, rfl⟩ := Sequence.of_map_ok h
        rw [TypeExpr.render, String.toList_intercalate, List.map_map]
        refine .intercalate (.of_plain (by decide)) (List.forall_mem_map.mpr fun l _ => ?_)
        exact selfContained_literal l
      · exact List.cons_ne_nil _ _

end TypeScript

end ApiMock
