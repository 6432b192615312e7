import ApiMock.Proofs.Yaml.Numerals
import ApiMock.Proofs.Yaml.Scanning
import ApiMock.Yaml.Lexer
/-!
# Yaml — cutting a text in the shared notation

A text in the notation that is shared with JSON is cut into the tokens that
its grammar says: brackets and commas stand for themselves, numbers, words and
texts are scalars, and every key is marked as one (`tokens_kept`).

No block is opened on the way, so the state of the cut is told by the tokens
so far, the number of open brackets and what is left of the text (`At`). Each
rule of the grammar is a few steps from one such state to the next (`Cuts`).
-/

namespace ApiMock

namespace Yaml

open Json (Phrase Style Bare)

/-- **The tokens of a phrase.** -/
inductive Cut : Phrase → List Token → Prop where
  | scalar {j : Json} {s : Scalar} {text : String} {isPlain : Bool} (hj : j.toData = .scalar s)
      (h : Stands text isPlain s) : Cut (.value j) [.scalar text isPlain]
  | emptyArray : Cut (.value (.arr [])) [.flowSequenceStart, .flowSequenceEnd]
  | array {js : List Json} {ts : List Token} (h : Cut (.items js) ts) :
      Cut (.value (.arr js)) (.flowSequenceStart :: ts)
  | lastItem {j : Json} {ts : List Token} (h : Cut (.value j) ts) :
      Cut (.items [j]) (ts ++ [.flowSequenceEnd])
  | item {j : Json} {js : List Json} {ts us : List Token} (h : Cut (.value j) ts)
      (hmore : Cut (.items js) us) : Cut (.items (j :: js)) (ts ++ .flowEntry :: us)
  | emptyObject : Cut (.value (.obj [])) [.flowMappingStart, .flowMappingEnd]
  | object {es : List (String × Json)} {ts : List Token} (h : Cut (.entries es) ts) :
      Cut (.value (.obj es)) (.flowMappingStart :: ts)
  | entry {name : String} {j : Json} {ts : List Token} (h : Cut (.value j) ts) :
      Cut (.entry name j) (.key :: .scalar name false :: .value :: ts)
  | lastEntry {name : String} {j : Json} {ts : List Token} (h : Cut (.entry name j) ts) :
      Cut (.entries [(name, j)]) (ts ++ [.flowMappingEnd])
  | moreEntries {name : String} {j : Json} {es : List (String × Json)} {ts us : List Token}
      (h : Cut (.entry name j) ts) (hmore : Cut (.entries es) us) :
      Cut (.entries ((name, j) :: es)) (ts ++ .flowEntry :: us)

namespace Lexer

variable {l m n : Lexer} {ts us : List Token} {t : Token} {depth : Nat}
  {rest tail gap trail : List Char} {ch : Char}

/-! ## Steps of a run -/

/-- A run from the first state goes on as one from the second, which has bound enough left. -/
def Cuts (l m : Lexer) : Prop :=
  ∀ fuel : List Char, l.cursor.rest.length < fuel.length →
    ∃ left : List Char, m.cursor.rest.length < left.length ∧ run fuel l = run left m

theorem Cuts.trans (h : Cuts l m) (hm : Cuts m n) : Cuts l n := by
  intro fuel hfuel
  obtain ⟨left, hleft, hrun⟩ := h fuel hfuel
  obtain ⟨last, hlast, hlater⟩ := hm left hleft
  exact ⟨last, hlast, hrun.trans hlater⟩

/-- A cut in which no block is open and no key is required: the tokens so far, the number of
open brackets and what is left of the text. -/
structure At (l : Lexer) (ts : List Token) (depth : Nat) (rest : List Char) : Prop where
  rest : l.cursor.rest = rest
  tokens : l.tokens = ts.reverse
  count : l.count = ts.length
  indents : l.indents = []
  depth : l.outer.length = depth
  free : ∀ key ∈ l.here :: l.outer, key.any (·.required) = false

/-- A step that reads something and does not end the text. -/
theorem Cuts.of_step (h : l.At ts depth rest) {d : Nat} (hm : m.At (us ++ [t]) d tail)
    (hstep : l.step = .ok m) (ht : t ≠ .textEnd) (hless : tail.length < rest.length) :
    Cuts l m := by
  intro fuel hfuel
  rw [h.rest] at hfuel
  cases fuel with
  | nil => cases hfuel
  | cons x fuel =>
    rw [List.length_cons] at hfuel
    refine ⟨fuel, by rw [hm.rest]; omega, ?_⟩
    rw [run, hstep]
    simp only [hm.tokens, List.reverse_append, List.reverse_cons, List.reverse_nil,
      List.nil_append, List.cons_append]
    cases t with
    | textEnd => exact absurd rfl ht
    | _ => rfl

/-! ## The place of a token -/

/-- What a token can start with: no blank and no comment. -/
def Starts (rest : List Char) : Prop :=
  ∀ x, rest.head? = some x → x ≠ ' ' ∧ x ≠ '#' ∧ isBreak x = false

theorem toNextToken_gap (hrest : Starts rest) (fuel : List Char) (hgap : Style.kept.Gap gap)
    (hc : l.cursor.rest = gap ++ rest) (hfuel : gap.length < fuel.length) :
    ∃ allowed, (l.keyAllowed = true → allowed = true) ∧ toNextToken fuel l =
      { l with cursor := l.cursor.skip gap.length, keyAllowed := allowed } := by
  induction fuel generalizing l gap with
  | nil => cases hfuel
  | cons x fuel ih =>
    obtain ⟨spaces, behind, rfl, hspaces, hbehind⟩ := gap_cases hgap
    rw [List.append_assoc] at hc
    have hcomment : ∀ c : Cursor, c.rest.head? ≠ some '#' → c.skipComment = c := by
      intro c hc
      rw [Cursor.skipComment, Cursor.peek, if_neg hc]
    rcases hbehind with rfl | ⟨more, rfl, hmore⟩
    -- no line ends in front of the token
    · have hskip : l.cursor.skipSpaces = l.cursor.skip spaces.length :=
        Cursor.skipSpaces_append hc hspaces fun hx => (hrest _ hx).1 rfl
      have hplace : (l.cursor.skip spaces.length).rest = rest := Cursor.rest_skip_append hc
      have hnone : (l.cursor.skip spaces.length).skipComment = l.cursor.skip spaces.length :=
        hcomment _ fun hx => (hrest _ (hplace ▸ hx)).2.1 rfl
      have hstop : (l.cursor.skip spaces.length).lineBreak? = none := by
        refine Cursor.lineBreak?_none ?_
        rw [hplace]
        cases hhead : rest.head? with
        | none => rfl
        | some y => exact (hrest y hhead).2.2
      refine ⟨l.keyAllowed, id, ?_⟩
      rw [toNextToken, List.append_nil]
      simp only [hskip, hnone, hstop]
      rfl
    -- a line ends, and outside of brackets a key may stand on the next one
    · have hskip : l.cursor.skipSpaces = l.cursor.skip spaces.length :=
        Cursor.skipSpaces_append hc hspaces (by simp)
      have hplace : (l.cursor.skip spaces.length).rest = '\n' :: (more ++ rest) :=
        Cursor.rest_skip_append hc
      have hnone : (l.cursor.skip spaces.length).skipComment = l.cursor.skip spaces.length :=
        hcomment _ (by rw [hplace]; simp)
      have hbreak := Cursor.lineBreak?_feed hplace
      rw [List.length_append, List.length_cons, List.length_cons] at hfuel
      obtain ⟨allowed, hallowed, hmoved⟩ := @ih { l with
        cursor := (l.cursor.skip spaces.length).next
        keyAllowed := l.keyAllowed || !l.inFlow } more hmore
        (by rw [Cursor.rest_next, hplace, List.tail_cons]) (by omega)
      refine ⟨allowed, fun h => hallowed (by rw [h, Bool.true_or]), ?_⟩
      rw [toNextToken]
      simp only [hskip, hnone, hbreak, hmoved]
      rw [Cursor.skip_cons]

theorem any_fresh? {c : Cursor} {key : Option PossibleKey}
    (h : key.any (·.required) = false) : (fresh? c key).any (·.required) = false := by
  rw [fresh?]
  cases hkey : key.filter fun k => !isStale c k with
  | none => rfl
  | some k =>
    rw [Option.filter_eq_some_iff] at hkey
    rw [hkey.1] at h
    exact h

/-- **The next token is taken behind the blanks in front of it.** A possible key is kept if it
is not stale there. -/
theorem At.place (h : l.At ts depth (gap ++ rest)) (hgap : Style.kept.Gap gap)
    (hrest : Starts rest) : ∃ m : Lexer, m.At ts depth rest ∧
      m.cursor = l.cursor.skip gap.length ∧ (l.keyAllowed = true → m.keyAllowed = true) ∧
      m.here = fresh? m.cursor l.here ∧
      l.step = match m.cursor.peek with
        | none => m.endText
        | some ch => m.tokenFrom ch := by
  have hfuel : gap.length < l.cursor.bound.length := by
    rw [Cursor.bound, h.rest, List.length_cons, List.length_append]
    omega
  obtain ⟨allowed, hallowed, hmoved⟩ := toNextToken_gap hrest _ hgap h.rest hfuel
  have hplace := Cursor.rest_skip_append h.rest
  generalize l.cursor.skip gap.length = c at hmoved hplace ⊢
  -- no key is required, so none is missed when it gets stale
  have hkept : ((l.here :: l.outer).any fun key => key.any fun k => isStale c k && k.required) =
      false := by
    rw [List.any_eq_false]
    intro key hkey
    have hfree := h.free key hkey
    cases key with
    | none => exact Bool.false_ne_true
    | some k =>
      rw [Option.any_some] at hfree
      rw [Option.any_some, hfree, Bool.and_false]
      exact Bool.false_ne_true
  refine ⟨{ l with
    cursor := c
    keyAllowed := allowed
    here := fresh? c l.here
    outer := l.outer.map (fresh? c) }, ?_, rfl, hallowed, rfl, ?_⟩
  · refine ⟨hplace, h.tokens, h.count, h.indents, ?_, ?_⟩
    · rw [List.length_map]
      exact h.depth
    · intro key hkey
      rcases List.mem_cons.mp hkey with rfl | hkey
      · exact any_fresh? (h.free _ List.mem_cons_self)
      · obtain ⟨old, hold, rfl⟩ := List.mem_map.mp hkey
        exact any_fresh? (h.free old (List.mem_cons_of_mem _ hold))
  · have hblocks : ∀ (m : Lexer) (column : Nat), m.indents = [] →
        (if m.inFlow then m else m.closeBlocks column) = m := by
      intro m column hm
      cases m
      cases hm
      exact ite_self _
    rw [step, hmoved]
    simp only [dropStale, hkept, Bool.false_eq_true, if_false, Sequence.ok_bind]
    rewrite [hblocks ⟨c, l.tokens, l.count, l.indents, allowed, fresh? c l.here,
      l.outer.map (fresh? c)⟩ c.column h.indents]
    rfl

/-! ## Marks -/

theorem dropKey_at (h : m.At ts depth rest) : m.dropKey = .ok { m with here := none } := by
  rw [dropKey, h.free _ List.mem_cons_self, if_neg Bool.false_ne_true]

/-- The state with a token more, at another place. -/
theorem At.add (h : m.At ts depth rest) {d : Nat} (hrest : n.cursor.rest = tail)
    (htokens : n.tokens = t :: m.tokens) (hcount : n.count = m.count + 1)
    (hindents : n.indents = m.indents) (hdepth : n.outer.length = d)
    (hfree : ∀ key ∈ n.here :: n.outer, key.any (·.required) = false) :
    n.At (ts ++ [t]) d tail where
  rest := hrest
  tokens := by
    rw [htokens, h.tokens, List.reverse_append, List.reverse_singleton, List.singleton_append]
  count := by rw [hcount, h.count, List.length_append, List.length_singleton]
  indents := hindents.trans h.indents
  depth := hdepth
  free := hfree

theorem At.inFlow (h : m.At ts depth rest) : m.inFlow = decide (0 < depth) := by
  rw [← h.depth, Lexer.inFlow]
  cases m.outer <;> rfl

theorem At.notSeparator (h : m.At ts depth (ch :: tail)) (hch : ch ≠ '-' ∧ ch ≠ '.') :
    m.cursor.atDashes = false ∧ m.cursor.atDots = false := by
  have hseparator : m.cursor.atSeparator = false := by
    refine Cursor.atSeparator_of_head fun x hx => ?_
    rw [h.rest, List.head?_cons, Option.some.injEq] at hx
    exact hx ▸ hch
  rwa [Cursor.atSeparator, Bool.or_eq_false_iff] at hseparator

/-- **A step takes a token** at the first character behind the blanks. -/
theorem At.cuts (h : l.At ts depth (gap ++ ch :: tail)) (hgap : Style.kept.Gap gap)
    (hstarts : Starts (ch :: tail)) {d : Nat} {behind : List Char} {P : Lexer → Prop}
    (ht : t ≠ .textEnd) (hbehind : behind.length ≤ tail.length)
    (htoken : ∀ m : Lexer, m.At ts depth (ch :: tail) →
      (l.keyAllowed = true → m.keyAllowed = true) →
      ∃ n, m.tokenFrom ch = .ok n ∧ n.At (us ++ [t]) d behind ∧ P n) :
    ∃ n, Cuts l n ∧ n.At (us ++ [t]) d behind ∧ P n := by
  obtain ⟨m, hm, -, hallowed, -, hstep⟩ := h.place hgap hstarts
  obtain ⟨n, hn, hat, hP⟩ := htoken m hm hallowed
  refine ⟨n, .of_step h hat ?_ ht ?_, hat, hP⟩
  · rw [hstep, Cursor.peek, hm.rest, List.head?_cons]
    exact hn
  · rw [List.length_append, List.length_cons]
    omega

/-- A mark starts a token. -/
theorem starts_mark (hch : ch ∈ ['[', '\x7b', ']', '\x7d', ',', ':']) : Starts (ch :: tail) := by
  have hall : ∀ x ∈ ['[', '\x7b', ']', '\x7d', ',', ':'],
      x ≠ ' ' ∧ x ≠ '#' ∧ isBreak x = false := by
    decide
  intro x hx
  rw [List.head?_cons, Option.some.injEq] at hx
  exact hx ▸ hall ch hch

/-- The place behind the first character. -/
theorem At.rest_next (h : m.At ts depth (ch :: tail)) : m.cursor.next.rest = tail := by
  rw [Cursor.rest_next, h.rest, List.tail_cons]

/-- What is noted as a possible key is not required. -/
theorem noteKey_at (h : m.At ts depth rest) : ∃ n : Lexer, m.noteKey = .ok n ∧
    n.At ts depth rest ∧ n.cursor = m.cursor ∧ n.keyAllowed = m.keyAllowed ∧
    (m.keyAllowed = true →
      n.here = some ⟨m.count, false, m.cursor.index, m.cursor.line, m.cursor.column⟩) := by
  rw [noteKey]
  split
  · have hrequired : (!m.inFlow && m.indents.head? = some m.cursor.column) = false := by
      rw [h.indents]
      simp
    rw [dropKey_at h]
    refine ⟨_, rfl, ⟨h.rest, h.tokens, h.count, h.indents, h.depth, ?_⟩, rfl, rfl, fun _ => ?_⟩
    · intro key hkey
      rcases List.mem_cons.mp hkey with rfl | hkey
      · exact hrequired
      · exact h.free key (List.mem_cons_of_mem _ hkey)
    · rw [← hrequired]
      rfl
  · rename_i hallowed
    exact ⟨m, rfl, h, rfl, rfl, fun h => absurd h hallowed⟩

/-- An opening bracket. A key may follow it. -/
theorem openFlow_at (h : m.At ts depth (ch :: tail)) : ∃ n : Lexer, m.openFlow t = .ok n ∧
    n.At (ts ++ [t]) (depth + 1) tail ∧ n.keyAllowed = true := by
  obtain ⟨k, hnote, hk, hcursor, -⟩ := noteKey_at h
  rw [openFlow, hnote]
  refine ⟨_, rfl, hk.add hk.rest_next rfl rfl rfl ?_ ?_, rfl⟩
  · exact congrArg Nat.succ hk.depth
  · exact List.forall_mem_cons.mpr ⟨rfl, hk.free⟩

/-- A closing bracket. -/
theorem closeFlow_at (h : m.At ts (depth + 1) (ch :: tail)) : ∃ n : Lexer,
    m.closeFlow t = .ok n ∧ n.At (ts ++ [t]) depth tail := by
  obtain ⟨key, outer, houter⟩ := List.exists_cons_of_length_eq_add_one h.depth
  have hfree := h.free
  rw [houter] at hfree
  have hdepth := h.depth
  rw [houter] at hdepth
  rw [closeFlow, dropKey_at h]
  simp only [Sequence.ok_bind, houter]
  refine ⟨_, rfl, h.add h.rest_next rfl rfl rfl ?_ ?_⟩
  · exact Nat.succ.inj hdepth
  · exact fun k hk => hfree k (List.mem_cons_of_mem _ hk)

/-- A comma. A key may follow it. -/
theorem flowEntry_at (h : m.At ts depth (ch :: tail)) : ∃ n : Lexer, m.flowEntry = .ok n ∧
    n.At (ts ++ [.flowEntry]) depth tail ∧ n.keyAllowed = true := by
  rw [flowEntry, dropKey_at h]
  refine ⟨_, rfl, h.add h.rest_next rfl rfl rfl h.depth ?_, rfl⟩
  exact List.forall_mem_cons.mpr ⟨rfl, fun k hk => h.free k (List.mem_cons_of_mem _ hk)⟩

/-- An opening bracket is a step. -/
theorem At.cuts_open (h : l.At ts depth (gap ++ ch :: tail)) (hgap : Style.kept.Gap gap)
    (hmark : ch = '[' ∧ t = .flowSequenceStart ∨ ch = '\x7b' ∧ t = .flowMappingStart) :
    ∃ n, Cuts l n ∧ n.At (ts ++ [t]) (depth + 1) tail ∧ n.keyAllowed = true := by
  have hch : (ch = '[' ∨ ch = '\x7b') ∧ t ≠ .textEnd := by
    rcases hmark with ⟨rfl, rfl⟩ | ⟨rfl, rfl⟩
    · exact ⟨.inl rfl, nofun⟩
    · exact ⟨.inr rfl, nofun⟩
  have hstarts : Starts (ch :: tail) := starts_mark (by rcases hch.1 with rfl | rfl <;> simp)
  refine h.cuts hgap hstarts hch.2 le_rfl fun m hm _ => ?_
  obtain ⟨hdashes, hdots⟩ := hm.notSeparator (by rcases hch.1 with rfl | rfl <;> decide)
  have htoken : m.tokenFrom ch = m.openFlow t := by
    rcases hmark with ⟨rfl, rfl⟩ | ⟨rfl, rfl⟩ <;> simp [tokenFrom, hdashes, hdots]
  rw [htoken]
  exact openFlow_at hm

/-- So is a closing bracket. -/
theorem At.cuts_close (h : l.At ts (depth + 1) (gap ++ ch :: tail)) (hgap : Style.kept.Gap gap)
    (hmark : ch = ']' ∧ t = .flowSequenceEnd ∨ ch = '\x7d' ∧ t = .flowMappingEnd) :
    ∃ n, Cuts l n ∧ n.At (ts ++ [t]) depth tail := by
  have hch : (ch = ']' ∨ ch = '\x7d') ∧ t ≠ .textEnd := by
    rcases hmark with ⟨rfl, rfl⟩ | ⟨rfl, rfl⟩
    · exact ⟨.inl rfl, nofun⟩
    · exact ⟨.inr rfl, nofun⟩
  have hstarts : Starts (ch :: tail) := starts_mark (by rcases hch.1 with rfl | rfl <;> simp)
  obtain ⟨n, hcuts, hn, -⟩ := h.cuts (P := fun _ => True) hgap hstarts hch.2 le_rfl fun m hm _ => by
    obtain ⟨hdashes, hdots⟩ := hm.notSeparator (by rcases hch.1 with rfl | rfl <;> decide)
    have htoken : m.tokenFrom ch = m.closeFlow t := by
      rcases hmark with ⟨rfl, rfl⟩ | ⟨rfl, rfl⟩ <;> simp [tokenFrom, hdashes, hdots]
    obtain ⟨n, hn, hat⟩ := closeFlow_at hm
    exact ⟨n, htoken.trans hn, hat, trivial⟩
  exact ⟨n, hcuts, hn⟩

/-- So is a comma. -/
theorem At.cuts_comma (h : l.At ts depth (gap ++ ',' :: tail)) (hgap : Style.kept.Gap gap) :
    ∃ n, Cuts l n ∧ n.At (ts ++ [.flowEntry]) depth tail ∧ n.keyAllowed = true := by
  refine h.cuts hgap (starts_mark (by simp)) nofun le_rfl fun m hm _ => ?_
  obtain ⟨hdashes, hdots⟩ := hm.notSeparator (by decide)
  have htoken : m.tokenFrom ',' = m.flowEntry := by simp [tokenFrom, hdashes, hdots]
  rw [htoken]
  exact flowEntry_at hm

/-! ## Scalars -/

variable {name : String} {cs : List Char}

/-- A text in quotes. If a key may stand where it does, it is one that may become a key. -/
theorem quoted_at (h : m.At ts depth (cs ++ tail)) (hquoted : Style.kept.quoted name cs) :
    ∃ n : Lexer, m.tokenFrom '"' = .ok n ∧ n.At (ts ++ [.scalar name false]) depth tail ∧
      (m.keyAllowed = true → ∃ k, n.here = some k ∧ k.number = ts.length ∧
        k.line = n.cursor.line ∧ n.cursor.index = k.index + cs.length) := by
  obtain ⟨⟨text, htext⟩, hline⟩ := Quoted.kept_line hquoted
  have hch := h
  rw [htext, List.cons_append] at hch
  obtain ⟨hdashes, hdots⟩ := hch.notSeparator (by decide)
  obtain ⟨k, hnote, hk, hcursor, -, hkey⟩ := noteKey_at h
  have hread := Quoted.read_kept hquoted hk.rest
  have htoken : m.tokenFrom '"' = .ok (({ k with keyAllowed := false }.moveTo
      (k.cursor.skip cs.length)).emit (.scalar name false)) := by
    rw [tokenFrom]
    simp [hdashes, hdots, content, hnote, hread]
  have hmoved : (k.cursor.skip cs.length).rest = tail := Cursor.rest_skip_append hk.rest
  refine ⟨_, htoken, hk.add hmoved rfl rfl rfl hk.depth hk.free, fun hallowed => ?_⟩
  refine ⟨_, hkey hallowed, h.count, ?_, ?_⟩
  · refine Eq.trans ?_ (Cursor.line_skip fun x hx => ?_).symm
    · rw [hcursor]
    · rw [hk.rest, List.take_left] at hx
      exact hline x hx
  · rw [← hcursor]
    refine Cursor.index_skip ?_
    rw [hk.rest, List.length_append]
    omega

/-- A letter or a digit has no meaning of its own at the start of a token. -/
theorem not_indicator {x : Char} (hx : x.isAlphanum = true) :
    isIndicator x = false ∧ isGap (some x) = false ∧ x ≠ '.' := by
  have hall : ∀ n < 128, (Char.ofNat n).isAlphanum = true → isIndicator (Char.ofNat n) = false ∧
      isGap (some (Char.ofNat n)) = false ∧ Char.ofNat n ≠ '.' := by decide +kernel
  have hascii : x.toNat < 128 := Json.IsBare.ascii (.inl hx)
  exact Json.forall_ascii (fun x => x.isAlphanum = true → isIndicator x = false ∧
    isGap (some x) = false ∧ x ≠ '.') hall hascii hx

/-- What starts like a number or a word is a plain scalar. -/
theorem tokenFrom_bare {j : Json} (h : m.At ts depth (cs ++ rest)) (hbare : Bare j cs)
    (hch : cs.head? = some ch) : m.tokenFrom ch = m.plainScalar := by
  obtain ⟨x, xs, rfl, hx⟩ := hbare.head
  obtain rfl : x = ch := Option.some.inj hch
  have hrest : m.cursor.rest = x :: (xs ++ rest) := h.rest
  rcases hx with hx | ⟨rfl, d, behind, rfl, hd⟩
  · obtain ⟨hindicator, hgap, hdot⟩ := not_indicator hx
    have hne : ∀ y ∈ ['-', '%', '[', '\x7b', ']', '\x7d', ',', '?', ':', '*', '&', '!', '|', '>',
        '\'', '"'],
        x ≠ y := by
      have hall : ∀ y ∈ ['-', '%', '[', '\x7b', ']', '\x7d', ',', '?', ':', '*', '&', '!', '|',
          '>', '\'',
          '"'], isIndicator y = true := by decide
      rintro y hy rfl
      rw [hall _ hy] at hindicator
      cases hindicator
    simp only [List.forall_mem_cons] at hne
    obtain ⟨hdashes, hdots⟩ := At.notSeparator h ⟨hne.1, hdot⟩
    have hstarts : m.startsPlain x = true := by
      rw [startsPlain, hgap, hindicator]
      rfl
    rw [tokenFrom]
    simp [hne, hdashes, hdots, hstarts]
  · obtain ⟨-, hgap, -⟩ := not_indicator hd
    have hne : d ≠ '-' := by
      rintro rfl
      cases hd
    have hdashes : m.cursor.atDashes = false := by
      rw [Cursor.atDashes, hrest]
      simp [hne]
    have hdots : m.cursor.atDots = false := by
      rw [Cursor.atDots, hrest]
      simp
    have hnext : m.cursor.peekAt 1 = some d := by
      rw [Cursor.peekAt, hrest]
      rfl
    rw [tokenFrom]
    simp [hdashes, hdots, startsPlain, hnext, hgap]

/-- A number or a word is read with the blanks behind it. -/
theorem bare_at {j : Json} (h : m.At ts depth (cs ++ (trail ++ tail))) (hbare : Bare j cs)
    (htrail : Style.kept.Gap trail) (htail : Plain.Ends (decide (0 < depth)) tail)
    (hch : cs.head? = some ch) : ∃ n : Lexer, m.tokenFrom ch = .ok n ∧
      n.At (ts ++ [.scalar (String.ofList cs) true]) depth tail := by
  obtain ⟨k, hnote, hk, hcursor, -⟩ := noteKey_at h
  have hflow : k.inFlow = decide (0 < depth) := hk.inFlow
  have hindent : k.leastIndent = 0 := by rw [leastIndent, hk.indents]
  obtain ⟨brokeLine, hread⟩ := Plain.read_bare hbare htail htrail hk.rest
  have hmoved : (k.cursor.skip (cs ++ trail).length).rest = tail := by
    refine Cursor.rest_skip_append ?_
    rw [hk.rest, List.append_assoc]
  rw [tokenFrom_bare h hbare hch, plainScalar, hnote]
  simp only [Sequence.ok_bind, hflow, hindent, hread]
  exact ⟨_, rfl, hk.add hmoved rfl rfl rfl hk.depth hk.free⟩

/-- So a number or a word is a step. -/
theorem At.cuts_bare {j : Json} (h : l.At ts depth (gap ++ (cs ++ (trail ++ tail))))
    (hgap : Style.kept.Gap gap) (hbare : Bare j cs) (htrail : Style.kept.Gap trail)
    (htail : Plain.Ends (decide (0 < depth)) tail) :
    ∃ n, Cuts l n ∧ n.At (ts ++ [.scalar (String.ofList cs) true]) depth tail := by
  obtain ⟨x, xs, rfl, -⟩ := hbare.head
  have hstarts : Starts (x :: (xs ++ (trail ++ tail))) := by
    intro y hy
    obtain rfl : x = y := Option.some.inj hy
    obtain ⟨hends, hhash⟩ := Plain.endsAt_bare (hbare.plain x List.mem_cons_self) false none
    have hgap : isGap (some x) = false := by
      simp only [Plain.endsAt, Bool.or_eq_false_iff] at hends
      exact hends.1.1
    simp only [isGap, Option.all_some, Bool.or_eq_false_iff, isWhite,
      decide_eq_false_iff_not] at hgap
    exact ⟨hgap.1.1, hhash, hgap.2⟩
  have hless : tail.length ≤ (xs ++ (trail ++ tail)).length := by
    simp only [List.length_append]
    omega
  have hstep : ∃ n, Cuts l n ∧
      n.At (ts ++ [.scalar (String.ofList (x :: xs)) true]) depth tail ∧ True := by
    refine At.cuts h hgap hstarts (fun heq => by cases heq) hless fun m hm _ => ?_
    obtain ⟨n, hn, hat⟩ := bare_at hm hbare htrail htail rfl
    exact ⟨n, hn, hat, trivial⟩
  obtain ⟨n, hcuts, hn, -⟩ := hstep
  exact ⟨n, hcuts, hn⟩

/-- So is a text in quotes. -/
theorem At.cuts_quoted (h : l.At ts depth (gap ++ (cs ++ tail))) (hgap : Style.kept.Gap gap)
    (hquoted : Style.kept.quoted name cs) :
    ∃ n, Cuts l n ∧ n.At (ts ++ [.scalar name false]) depth tail ∧
      (l.keyAllowed = true → ∃ k, n.here = some k ∧ k.number = ts.length ∧
        k.line = n.cursor.line ∧ n.cursor.index = k.index + cs.length) := by
  obtain ⟨⟨text, rfl⟩, -⟩ := Quoted.kept_line hquoted
  have hstarts : Starts ('"' :: (text ++ tail)) := by
    intro y hy
    obtain rfl : '"' = y := Option.some.inj hy
    decide
  have hless : tail.length ≤ (text ++ tail).length := by
    rw [List.length_append]
    omega
  refine At.cuts h hgap hstarts nofun hless fun m hm hallowed => ?_
  obtain ⟨n, hn, hat, hkey⟩ := quoted_at hm hquoted
  exact ⟨n, hn, hat, fun h => hkey (hallowed h)⟩

/-- The mark of a key comes in front of the last token, if that may be a key. -/
theorem valueMark_at {k : PossibleKey} (h : m.At (ts ++ [t]) (depth + 1) (':' :: tail))
    (hhere : m.here = some k) (hnumber : k.number = ts.length) :
    ∃ n, m.valueMark = .ok n ∧ n.At (ts ++ [.key, t] ++ [.value]) (depth + 1) tail := by
  have hcount : m.count - k.number = 1 := by
    rw [h.count, hnumber, List.length_append, List.length_singleton]
    omega
  have hmarked : ({ m with here := none, keyAllowed := false }.emitBefore k.number .key).At
      (ts ++ [Token.key, t]) (depth + 1) (':' :: tail) := by
    refine ⟨h.rest, ?_, ?_, h.indents, h.depth, ?_⟩
    · simp only [emitBefore, hcount, h.tokens, List.reverse_append]
      rfl
    · simp only [emitBefore, h.count, List.length_append]
      rfl
    · exact List.forall_mem_cons.mpr
        ⟨rfl, fun key hkey => h.free key (List.mem_cons_of_mem _ hkey)⟩
  have hinside : ({ m with here := none, keyAllowed := false }.emitBefore k.number .key).inFlow =
      true := hmarked.inFlow.trans (decide_eq_true (Nat.succ_pos depth))
  rw [valueMark, hhere]
  simp only [hinside, Bool.not_true, Bool.false_and, Bool.false_eq_true, if_false]
  exact ⟨_, rfl, hmarked.add hmarked.rest_next rfl rfl rfl hmarked.depth hmarked.free⟩

/-- **A key and its colon.** -/
theorem At.cuts_key {space : List Char}
    (h : l.At ts (depth + 1) (gap ++ (cs ++ (space ++ ':' :: tail)))) (hgap : Style.kept.Gap gap)
    (hallowed : l.keyAllowed = true) (hquoted : Style.kept.quoted name cs)
    (hspace : Style.kept.colonGap cs space) :
    ∃ n, Cuts l n ∧ n.At (ts ++ [.key, .scalar name false, .value]) (depth + 1) tail := by
  obtain ⟨q, hcuts, hq, hkey⟩ := h.cuts_quoted hgap hquoted
  obtain ⟨k, hhere, hnumber, hline, hindex⟩ := hkey hallowed
  have hblank : Style.kept.Gap space := fun x hx => .inl (hspace.1 x hx)
  obtain ⟨m, hm, hcursor, -, hfresh, hstep⟩ := hq.place hblank (starts_mark (by simp))
  -- the key is on the line of the colon, and not too far in front of it
  have hstay : m.cursor.line = q.cursor.line := by
    rw [hcursor]
    refine Cursor.line_skip fun x hx => ?_
    rw [hq.rest, List.take_left] at hx
    rw [hspace.1 x hx]
    decide
  have hplace : m.cursor.index = q.cursor.index + space.length := by
    rw [hcursor]
    refine Cursor.index_skip ?_
    rw [hq.rest, List.length_append]
    omega
  have hshort := hspace.2
  have hstale : isStale m.cursor k = false := by
    rw [isStale, hline, hstay, hplace, hindex]
    simp only [ne_eq, not_true_eq_false, decide_false, Bool.false_or, decide_eq_false_iff_not]
    omega
  have hstill : m.here = some k := by
    rw [hfresh, hhere, fresh?, Option.filter_some, hstale]
    rfl
  obtain ⟨n, hvalue, hn⟩ := valueMark_at hm hstill hnumber
  have hflow : m.inFlow = true := hm.inFlow.trans (decide_eq_true (Nat.succ_pos depth))
  obtain ⟨hdashes, hdots⟩ := hm.notSeparator (by decide)
  have htoken : m.tokenFrom ':' = m.valueMark := by
    simp [tokenFrom, hdashes, hdots, isMark, hflow]
  refine ⟨n, hcuts.trans (.of_step hq hn ?_ nofun ?_), ?_⟩
  · rw [hstep, Cursor.peek, hm.rest, List.head?_cons]
    exact htoken.trans hvalue
  · rw [List.length_append, List.length_cons]
    omega
  · rwa [List.append_assoc] at hn

/-! ## Phrases -/

/-- Where the text of a phrase stands, its tokens are added. A value may take blanks behind it
along, if they are followed by what ends it. -/
def Adds (ks : List Char) (us : List Token) : Phrase → Prop
  | .value _ => ∀ (l : Lexer) {ts : List Token} {depth : Nat} {gap trail tail : List Char},
      l.At ts depth (gap ++ (ks ++ (trail ++ tail))) → Style.kept.Gap gap → Style.kept.Gap trail →
      Plain.Ends (decide (0 < depth)) tail →
      ∃ n behind, Cuts l n ∧ n.At (ts ++ us) depth (behind ++ tail) ∧ Style.kept.Gap behind
  | .items _ => ∀ (l : Lexer) {ts : List Token} {depth : Nat} {gap tail : List Char},
      l.At ts (depth + 1) (gap ++ (ks ++ tail)) → Style.kept.Gap gap →
      ∃ n, Cuts l n ∧ n.At (ts ++ us) depth tail
  | .entry _ _ => ∀ (l : Lexer) {ts : List Token} {depth : Nat} {gap trail tail : List Char},
      l.At ts (depth + 1) (gap ++ (ks ++ (trail ++ tail))) → l.keyAllowed = true →
      Style.kept.Gap gap → Style.kept.Gap trail → Plain.Ends true tail →
      ∃ n behind, Cuts l n ∧ n.At (ts ++ us) (depth + 1) (behind ++ tail) ∧ Style.kept.Gap behind
  | .entries _ => ∀ (l : Lexer) {ts : List Token} {depth : Nat} {gap tail : List Char},
      l.At ts (depth + 1) (gap ++ (ks ++ tail)) → l.keyAllowed = true → Style.kept.Gap gap →
      ∃ n, Cuts l n ∧ n.At (ts ++ us) depth tail

theorem ends_mark (hch : ch ∈ [',', ']', '\x7d']) : Plain.Ends true (ch :: tail) :=
  .inr ⟨rfl, ch, hch, rfl⟩

variable {j : Json} {js : List Json} {es : List (String × Json)} {lead more key space : List Char}
  {vs : List Token}

theorem adds_bare (h : Bare j cs) : Adds cs [.scalar (String.ofList cs) true] (.value j) := by
  intro l ts depth gap trail tail hl hgap htrail htail
  obtain ⟨n, hcuts, hn⟩ := hl.cuts_bare hgap h htrail htail
  exact ⟨n, [], hcuts, hn, fun _ hx => absurd hx List.not_mem_nil⟩

theorem adds_quoted (h : Style.kept.quoted name cs) :
    Adds cs [.scalar name false] (.value (.str name)) := by
  intro l ts depth gap trail tail hl hgap htrail _
  obtain ⟨n, hcuts, hn, -⟩ := hl.cuts_quoted hgap h
  exact ⟨n, trail, hcuts, hn, htrail⟩

theorem adds_emptyArray (hlead : Style.kept.Gap lead) :
    Adds ('[' :: (lead ++ [']'])) [.flowSequenceStart, .flowSequenceEnd] (.value (.arr [])) := by
  intro l ts depth gap trail tail hl hgap htrail _
  rw [List.cons_append, List.append_assoc, List.singleton_append] at hl
  obtain ⟨m, hcuts, hm, -⟩ := hl.cuts_open hgap (.inl ⟨rfl, rfl⟩)
  obtain ⟨n, hmore, hn⟩ := hm.cuts_close hlead (.inl ⟨rfl, rfl⟩)
  rw [List.append_assoc] at hn
  exact ⟨n, trail, hcuts.trans hmore, hn, htrail⟩

theorem adds_array (hlead : Style.kept.Gap lead) (h : Adds cs us (.items js)) :
    Adds ('[' :: (lead ++ cs)) (.flowSequenceStart :: us) (.value (.arr js)) := by
  intro l ts depth gap trail tail hl hgap htrail _
  rw [List.cons_append, List.append_assoc] at hl
  obtain ⟨m, hcuts, hm, -⟩ := hl.cuts_open hgap (.inl ⟨rfl, rfl⟩)
  obtain ⟨n, hmore, hn⟩ := h m hm hlead
  rw [List.append_assoc] at hn
  exact ⟨n, trail, hcuts.trans hmore, hn, htrail⟩

theorem adds_lastItem (h : Adds cs us (.value j)) (htrail : Style.kept.Gap trail) :
    Adds (cs ++ (trail ++ [']'])) (us ++ [.flowSequenceEnd]) (.items [j]) := by
  intro l ts depth gap tail hl hgap
  rw [List.append_assoc, List.append_assoc] at hl
  obtain ⟨m, behind, hcuts, hm, hbehind⟩ := h l hl hgap htrail (by simpa using ends_mark (by simp))
  obtain ⟨n, hmore, hn⟩ := hm.cuts_close hbehind (.inl ⟨rfl, rfl⟩)
  rw [List.append_assoc] at hn
  exact ⟨n, hcuts.trans hmore, hn⟩

theorem adds_item (h : Adds cs us (.value j)) (htrail : Style.kept.Gap trail)
    (hlead : Style.kept.Gap lead) (hothers : Adds more vs (.items js)) :
    Adds (cs ++ (trail ++ ',' :: (lead ++ more))) (us ++ .flowEntry :: vs)
      (.items (j :: js)) := by
  intro l ts depth gap tail hl hgap
  simp only [List.append_assoc, List.cons_append] at hl
  obtain ⟨m, behind, hfirst, hm, hbehind⟩ := h l hl hgap htrail (by simpa using ends_mark (by simp))
  obtain ⟨k, hcomma, hk, -⟩ := hm.cuts_comma hbehind
  obtain ⟨n, hmore, hn⟩ := hothers k hk hlead
  simp only [List.append_assoc, List.singleton_append] at hn
  exact ⟨n, (hfirst.trans hcomma).trans hmore, hn⟩

theorem adds_emptyObject (hlead : Style.kept.Gap lead) :
    Adds ('\x7b' :: (lead ++ ['\x7d'])) [.flowMappingStart, .flowMappingEnd]
      (.value (.obj [])) := by
  intro l ts depth gap trail tail hl hgap htrail _
  rw [List.cons_append, List.append_assoc, List.singleton_append] at hl
  obtain ⟨m, hcuts, hm, -⟩ := hl.cuts_open hgap (.inr ⟨rfl, rfl⟩)
  obtain ⟨n, hmore, hn⟩ := hm.cuts_close hlead (.inr ⟨rfl, rfl⟩)
  rw [List.append_assoc] at hn
  exact ⟨n, trail, hcuts.trans hmore, hn, htrail⟩

theorem adds_object (hlead : Style.kept.Gap lead) (h : Adds cs us (.entries es)) :
    Adds ('\x7b' :: (lead ++ cs)) (.flowMappingStart :: us) (.value (.obj es)) := by
  intro l ts depth gap trail tail hl hgap htrail _
  rw [List.cons_append, List.append_assoc] at hl
  obtain ⟨m, hcuts, hm, hallowed⟩ := hl.cuts_open hgap (.inr ⟨rfl, rfl⟩)
  obtain ⟨n, hmore, hn⟩ := h m hm hallowed hlead
  rw [List.append_assoc] at hn
  exact ⟨n, trail, hcuts.trans hmore, hn, htrail⟩

theorem adds_entry (hkey : Style.kept.quoted name key) (hspace : Style.kept.colonGap key space)
    (hlead : Style.kept.Gap lead) (h : Adds cs us (.value j)) :
    Adds (key ++ (space ++ ':' :: (lead ++ cs))) (.key :: .scalar name false :: .value :: us)
      (.entry name j) := by
  intro l ts depth gap trail tail hl hallowed hgap htrail htail
  simp only [List.append_assoc, List.cons_append] at hl
  obtain ⟨m, hcuts, hm⟩ := hl.cuts_key hgap hallowed hkey hspace
  obtain ⟨n, behind, hmore, hn, hbehind⟩ := h m hm hlead htrail (by simpa using htail)
  rw [List.append_assoc] at hn
  exact ⟨n, behind, hcuts.trans hmore, hn, hbehind⟩

theorem adds_lastEntry (h : Adds cs us (.entry name j)) (htrail : Style.kept.Gap trail) :
    Adds (cs ++ (trail ++ ['\x7d'])) (us ++ [.flowMappingEnd]) (.entries [(name, j)]) := by
  intro l ts depth gap tail hl hallowed hgap
  rw [List.append_assoc, List.append_assoc] at hl
  obtain ⟨m, behind, hcuts, hm, hbehind⟩ := h l hl hallowed hgap htrail (ends_mark (by simp))
  obtain ⟨n, hmore, hn⟩ := hm.cuts_close hbehind (.inr ⟨rfl, rfl⟩)
  rw [List.append_assoc] at hn
  exact ⟨n, hcuts.trans hmore, hn⟩

theorem adds_moreEntries (h : Adds cs us (.entry name j)) (htrail : Style.kept.Gap trail)
    (hlead : Style.kept.Gap lead) (hothers : Adds more vs (.entries es)) :
    Adds (cs ++ (trail ++ ',' :: (lead ++ more))) (us ++ .flowEntry :: vs)
      (.entries ((name, j) :: es)) := by
  intro l ts depth gap tail hl hallowed hgap
  simp only [List.append_assoc, List.cons_append] at hl
  obtain ⟨m, behind, hfirst, hm, hbehind⟩ := h l hl hallowed hgap htrail (ends_mark (by simp))
  obtain ⟨k, hcomma, hk, hkey⟩ := hm.cuts_comma hbehind
  obtain ⟨n, hmore, hn⟩ := hothers k hk hkey hlead
  simp only [List.append_assoc, List.singleton_append] at hn
  exact ⟨n, (hfirst.trans hcomma).trans hmore, hn⟩

/-- **The tokens of what is written.** -/
theorem adds_of_writes {p : Phrase} {ks : List Char} (h : Style.kept.Writes p ks) :
    ∃ us, Cut p us ∧ Adds ks us p := by
  induction h with
  | bare h =>
    obtain ⟨s, hj, hs⟩ := h.stands
    exact ⟨_, .scalar hj hs, adds_bare h⟩
  | @quoted s cs h => exact ⟨_, .scalar rfl (stands_text s), adds_quoted h⟩
  | emptyArray hlead => exact ⟨_, .emptyArray, adds_emptyArray hlead⟩
  | array hlead _ ih =>
    obtain ⟨us, hcut, h⟩ := ih
    exact ⟨_, .array hcut, adds_array hlead h⟩
  | lastItem _ htrail ih =>
    obtain ⟨us, hcut, h⟩ := ih
    exact ⟨_, .lastItem hcut, adds_lastItem h htrail⟩
  | item _ htrail hlead _ ih ihmore =>
    obtain ⟨us, hcut, h⟩ := ih
    obtain ⟨vs, hcuts, hothers⟩ := ihmore
    exact ⟨_, .item hcut hcuts, adds_item h htrail hlead hothers⟩
  | emptyObject hlead => exact ⟨_, .emptyObject, adds_emptyObject hlead⟩
  | object hlead _ ih =>
    obtain ⟨us, hcut, h⟩ := ih
    exact ⟨_, .object hcut, adds_object hlead h⟩
  | entry hkey hspace hlead _ ih =>
    obtain ⟨us, hcut, h⟩ := ih
    exact ⟨_, .entry hcut, adds_entry hkey hspace hlead h⟩
  | lastEntry _ htrail ih =>
    obtain ⟨us, hcut, h⟩ := ih
    exact ⟨_, .lastEntry hcut, adds_lastEntry h htrail⟩
  | moreEntries _ htrail hlead _ ih ihmore =>
    obtain ⟨us, hcut, h⟩ := ih
    obtain ⟨vs, hcuts, hothers⟩ := ihmore
    exact ⟨_, .moreEntries hcut hcuts, adds_moreEntries h htrail hlead hothers⟩

/-- The end of the text ends the run. -/
theorem run_end (h : l.At ts 0 gap) (hgap : Style.kept.Gap gap) {fuel : List Char}
    (hfuel : gap.length < fuel.length) : run fuel l = ts ++ [.textEnd] := by
  have hrest : l.At ts 0 (gap ++ []) := by rwa [List.append_nil]
  obtain ⟨m, hm, -, -, -, hstep⟩ := hrest.place hgap nofun
  have hflow : m.inFlow = false := hm.inFlow
  have hpeek : m.cursor.peek = none := by rw [Cursor.peek, hm.rest, List.head?_nil]
  have hblocks : m.closeAllBlocks = m := by
    obtain ⟨-, -, -, hindents⟩ := hm
    cases m
    cases hindents
    rfl
  have hend : m.endText = .ok ({ m with here := none }.emit .textEnd) := by
    rw [endText, hflow, if_neg Bool.false_ne_true, hblocks, dropKey_at hm]
    rfl
  cases fuel with
  | nil => cases hfuel
  | cons x fuel =>
    rw [run, hstep, hpeek]
    simp only [hend]
    rw [emit, List.reverse_cons, hm.tokens, List.reverse_reverse]

end Lexer

/-- A value does not start with a byte order mark. -/
theorem head_of_writes {j : Json} {ks : List Char} (h : Style.kept.Writes (.value j) ks) :
    ∃ x xs, ks = x :: xs ∧ x ≠ '\uFEFF' := by
  cases h with
  | bare h =>
    obtain ⟨x, xs, rfl, -⟩ := h.head
    refine ⟨x, xs, rfl, ?_⟩
    rintro rfl
    exact absurd (h.plain _ List.mem_cons_self).ascii (by decide)
  | quoted h =>
    obtain ⟨⟨text, rfl⟩, -⟩ := Quoted.kept_line h
    exact ⟨'"', text, rfl, by decide⟩
  | emptyArray => exact ⟨'[', _, rfl, by decide⟩
  | array => exact ⟨'[', _, rfl, by decide⟩
  | emptyObject => exact ⟨'\x7b', _, rfl, by decide⟩
  | object => exact ⟨'\x7b', _, rfl, by decide⟩

/-- **A text in the shared notation is cut into the tokens of its value.** -/
theorem tokens_kept {j : Json} {lead ks trail : List Char} (hlead : Style.kept.Gap lead)
    (h : Style.kept.Writes (.value j) ks) (htrail : Style.kept.Gap trail) :
    ∃ ts, Cut (.value j) ts ∧ tokens (lead ++ (ks ++ trail)) = ts ++ [.textEnd] := by
  obtain ⟨ts, hcut, hadds⟩ := Lexer.adds_of_writes h
  obtain ⟨x, xs, hx, hmark⟩ := head_of_writes h
  have hstart : Cursor.start (lead ++ (ks ++ trail)) = ⟨lead ++ (ks ++ trail), 0, 0, 0⟩ := by
    rw [Cursor.start]
    rintro rest heq
    rw [hx] at heq
    cases lead with
    | nil => exact hmark (List.cons.inj heq).1
    | cons y lead =>
      have hy := hlead y List.mem_cons_self
      rw [(List.cons.inj heq).1] at hy
      rcases hy with hy | hy <;> cases hy
  have hat : (Lexer.start (lead ++ (ks ++ trail))).At [] 0 (lead ++ (ks ++ (trail ++ []))) := by
    refine ⟨?_, rfl, rfl, rfl, rfl, ?_⟩
    · rw [List.append_nil, Lexer.start, hstart]
    · simp [Lexer.start]
  obtain ⟨m, behind, hcuts, hm, hbehind⟩ := hadds _ hat hlead htrail (.inl rfl)
  rw [List.append_nil] at hm
  obtain ⟨fuel, hfuel, hrun⟩ := hcuts ('\n' :: (Lexer.start (lead ++ (ks ++ trail))).cursor.bound)
    (by rw [Cursor.bound, List.length_cons, List.length_cons]; omega)
  rw [hm.rest] at hfuel
  refine ⟨ts, hcut, ?_⟩
  rw [tokens]
  exact hrun.trans (Lexer.run_end hm hbehind hfuel)

end Yaml

end ApiMock
