import ApiMock.Proofs.Yaml.Tokens
import ApiMock.Yaml.Document
/-!
# Yaml — reading never runs out of rounds

The rules for nodes call each other with one round less. A node, a list and
a mapping pass over a token before they come up again, and between two
tokens at most four rules follow each other; so `4 * n + 8` rounds are
enough for `n` tokens (`enough`). A text is then refused as a document for
what stands in it only (`ofText?_fails`).

`Reads` says what a step does to the tokens that are left: they are the end
of those before, and the step fails for nothing else than what stands there.
-/

namespace ApiMock

namespace Yaml

open Sequence

namespace Reader

variable {α β : Type} {ts us : List Token} {t : Token} {x : Reading α}
  {f : α → Reading β} {Q : α → List Token → Prop} {R : β → List Token → Prop}

/-- What stops reading: the tokens are not those of a document, or one of them stands
for a failure. -/
def Fault (ts : List Token) (f : Failure) : Prop :=
  f = .notYaml ∨ .broken f ∈ ts

/-- A step from a state with the tokens `ts` left fails only for what stands there. What
it gives and the tokens that it leaves satisfy `Q`. -/
def Reads (ts : List Token) (x : Reading α) (Q : α → List Token → Prop) : Prop :=
  ∀ r : Reader, r.tokens = ts →
    Ends (Fault ts) (fun p => p.2.tokens <:+ ts ∧ Q p.1 p.2.tokens) (x.run r)

theorem Fault.mono {f : Failure} (h : Fault us f) (hs : us <:+ ts) : Fault ts f :=
  h.imp_right fun hf => hs.subset hf

/-- The token that comes up next. Behind the last one the text ends. -/
def Next (ts : List Token) (t : Token) : Prop :=
  ts.head? = some t ∨ ts = [] ∧ t = .textEnd

theorem Next.pos (h : Next ts t) (ht : t ≠ .textEnd) : 0 < ts.length := by
  rcases h with h | ⟨-, rfl⟩
  · cases ts with
    | nil => cases h
    | cons => exact Nat.succ_pos _
  · exact absurd rfl ht

theorem Next.unique {u : Token} (h : Next ts t) (hu : Next ts u) : t = u := by
  rcases h with h | ⟨rfl, rfl⟩
  · rcases hu with hu | ⟨rfl, -⟩
    · exact Option.some.inj (h.symm.trans hu)
    · cases h
  · rcases hu with hu | ⟨-, rfl⟩
    · cases hu
    · rfl

theorem length_tail_lt (h : Next ts t) (ht : t ≠ .textEnd) : ts.tail.length < ts.length := by
  have := h.pos ht
  rw [List.length_tail]
  omega

namespace Reads

theorem pure {a : α} (h : Q a ts) : Reads ts (pure a) Q := by
  rintro r rfl
  exact ⟨List.suffix_refl _, h⟩

theorem refuse : Reads ts (throw .notYaml) Q := by
  rintro r -
  exact .inl rfl

theorem refuse_bind : Reads ts (throw .notYaml >>= f) R := by
  rintro r -
  exact .inl rfl

theorem bind (h : Reads ts x Q) (hf : ∀ a us, us <:+ ts → Q a us → Reads us (f a) R) :
    Reads ts (x >>= f) R := by
  rintro r hr
  refine (h r hr).bind ?_
  rintro ⟨a, q⟩ ⟨hs, ha⟩
  exact (hf a q.tokens hs ha q rfl).mono (fun _ h => h.mono hs) fun _ h => ⟨h.1.trans hs, h.2⟩

theorem mono {Q' : α → List Token → Prop} (h : Reads ts x Q)
    (hQ : ∀ a us, us <:+ ts → Q a us → Q' a us) : Reads ts x Q' := fun r hr =>
  (h r hr).mono (fun _ h => h) fun _ h => ⟨h.1, hQ _ _ h.1 h.2⟩

theorem peek {f : Token → Reading β} (h : ∀ t, Next ts t → Reads ts (f t) R) :
    Reads ts (peek >>= f) R := by
  rintro r rfl
  have hpeek : Ends (Fault r.tokens) (fun p => p.2 = r ∧ Next r.tokens p.1) (Reader.peek.run r) := by
    rcases r with ⟨_ | ⟨t, rest⟩⟩
    · exact ⟨rfl, .inr ⟨rfl, rfl⟩⟩
    · cases t with
      | broken f => exact .inr List.mem_cons_self
      | _ => exact ⟨rfl, .inl rfl⟩
  refine hpeek.bind ?_
  rintro ⟨t, q⟩ ⟨rfl, ht⟩
  exact h t ht q rfl

theorem advance {f : Unit → Reading β} (h : Reads ts.tail (f ()) R) :
    Reads ts (advance >>= f) R := by
  refine bind (Q := fun _ us => us = ts.tail) ?_ ?_
  · rintro r rfl
    exact ⟨List.tail_suffix _, rfl⟩
  · rintro _ us - rfl
    exact h

/-- A step that touches no token. -/
theorem update {g : Reader → Reader} {f : Unit → Reading β} (hg : ∀ r, (g r).tokens = r.tokens)
    (h : Reads ts (f ()) R) : Reads ts (modify g >>= f) R := by
  refine bind (Q := fun _ us => us = ts) ?_ ?_
  · rintro r rfl
    exact ⟨(hg r) ▸ List.suffix_refl _, hg r⟩
  · rintro _ us - rfl
    exact h

theorem state {f : Reader → Reading β} (h : ∀ r, Reads ts (f r) R) : Reads ts (get >>= f) R := by
  rintro r hr
  exact h r r hr

end Reads

/-- Passing over a token that is there leaves fewer. -/
theorem Reads.pass (ht : Next ts t) (hne : t ≠ .textEnd) (h : Reads ts.tail x Q) :
    Reads ts (Reader.advance >>= fun _ => x) fun _ us => us.length < ts.length :=
  .advance (h.mono fun _ _ hs _ => Nat.lt_of_le_of_lt hs.length_le (length_tail_lt ht hne))

/-! ## Steps in front of a node -/

theorem tagText_reads {w : WrittenTag} : Reads ts (tagText w) fun _ us => us = ts := by
  rw [tagText]
  split
  · exact .pure rfl
  · refine .state fun r => ?_
    split
    · exact .pure rfl
    · exact .refuse

theorem writtenTag?_reads :
    Reads ts writtenTag? fun w us => w = none ∨ us.length < ts.length := by
  refine .peek fun t ht => ?_
  split
  · exact .advance (.pure (.inr (length_tail_lt ht nofun)))
  · exact .pure (.inl rfl)

theorem anchor?_reads : Reads ts anchor? fun n us => n = none ∨ us.length < ts.length := by
  refine .peek fun t ht => ?_
  split
  · exact .advance (.pure (.inr (length_tail_lt ht nofun)))
  · exact .pure (.inl rfl)

/-- Nothing is said about a node. -/
def Properties.IsBare (p : Properties) : Prop :=
  p.anchor = none ∧ p.tag = none

theorem properties_reads :
    Reads ts properties fun p us => p.IsBare ∨ us.length < ts.length := by
  refine anchor?_reads.bind fun n us hs hn => ?_
  cases n with
  | some n =>
    have hn : us.length < ts.length := hn.resolve_left nofun
    refine writtenTag?_reads.bind fun w vs hvs _ => ?_
    have hlt : vs.length < ts.length := Nat.lt_of_le_of_lt hvs.length_le hn
    cases w with
    | none => exact .pure (.inr hlt)
    | some w =>
      -- the tag is written out without a further token
      refine Reads.bind (Q := fun _ ws => ws = vs) ?_ fun _ ws _ hws => .pure (.inr (hws ▸ hlt))
      exact tagText_reads.bind fun _ _ _ hws => .pure hws
  | none =>
    refine writtenTag?_reads.bind fun w vs hvs hw => ?_
    cases w with
    | none => exact .pure (.inl ⟨rfl, rfl⟩)
    | some w =>
      have hlt : vs.length < ts.length := Nat.lt_of_lt_of_le (hw.resolve_left nofun) hs.length_le
      refine anchor?_reads.bind fun n ws hws _ => ?_
      refine tagText_reads.bind fun text ws' _ heq => .pure (.inr ?_)
      exact heq ▸ Nat.lt_of_le_of_lt hws.length_le hlt

theorem aliased_reads {name : String} : Reads ts (aliased name) fun _ us => us = ts := by
  refine .state fun r => ?_
  split
  · exact .pure rfl
  · exact .refuse

/-! ## Adding nodes -/

theorem addPlain_reads {node : Node} : Reads ts (addPlain node) fun _ us => us = ts := by
  rintro r rfl
  exact ⟨List.suffix_refl _, rfl⟩

theorem addNode_reads {anchor : Option String} {node : Node} :
    Reads ts (addNode anchor node) fun _ us => us = ts := by
  cases anchor with
  | none => exact addPlain_reads
  | some name =>
    refine .state fun r => ?_
    split
    · exact .refuse_bind
    · refine addPlain_reads.bind fun n us _ hus => ?_
      exact .update (fun _ => rfl) (.pure hus)

theorem addScalar_reads {p : Properties} {isPlain : Bool} {text : String} :
    Reads ts (addScalar p isPlain text) fun _ us => us = ts :=
  addNode_reads

theorem addSequence_reads {p : Properties} {items : Reading (List NodeId)}
    {Q : List Token → Prop} (h : Reads ts items fun _ us => Q us) :
    Reads ts (addSequence p items) fun _ us => Q us := by
  refine addNode_reads.bind ?_
  rintro n us - rfl
  exact h.bind fun _ vs _ hvs => .update (fun _ => rfl) (.pure hvs)

theorem addMapping_reads {p : Properties} {entries : Reading (List NodeEntry)}
    {Q : List Token → Prop} (h : Reads ts entries fun _ us => Q us) :
    Reads ts (addMapping p entries) fun _ us => Q us := by
  refine addNode_reads.bind ?_
  rintro n us - rfl
  exact h.bind fun _ vs _ hvs => .update (fun _ => rfl) (.pure hvs)

theorem emptyContent_reads {p : Properties} :
    Reads ts (emptyContent p) fun _ us => us = ts ∧ ¬ p.IsBare := by
  rw [emptyContent]
  split
  · exact .refuse_bind
  · rename_i h
    refine addScalar_reads.mono fun _ us _ hus => ⟨hus, fun hbare => h ?_⟩
    rw [hbare.1, hbare.2]
    rfl

theorem addEmpty_reads : Reads ts addEmpty fun _ us => us = ts :=
  addPlain_reads

/-! ## Nodes -/

/-- So many rounds are enough for every rule, told by the tokens left. -/
structure Suffices (fuel : Nat) : Prop where
  node {ts : List Token} {place : Place} (h : 4 * ts.length + 3 ≤ fuel) :
    Reads ts (node fuel place) fun _ us => us.length < ts.length
  content {ts : List Token} {place : Place} {p : Properties} (h : 4 * ts.length + 2 ≤ fuel) :
    Reads ts (content fuel place p) fun _ us => p.IsBare → us.length < ts.length
  blockSequence {ts : List Token} (h : 4 * ts.length + 5 ≤ fuel) :
    Reads ts (blockSequence fuel) fun _ _ => True
  flatSequence {ts : List Token} (h : 4 * ts.length + 1 ≤ fuel) :
    Reads ts (flatSequence fuel) fun _ us => Next ts .blockEntry → us.length < ts.length
  blockMapping {ts : List Token} (h : 4 * ts.length + 5 ≤ fuel) :
    Reads ts (blockMapping fuel) fun _ _ => True
  blockPart {ts : List Token} (h : 4 * ts.length + 4 ≤ fuel) :
    Reads ts (blockPart fuel) fun _ _ => True
  flowSequence {ts : List Token} {isFirst : Bool} (h : 4 * ts.length + 5 ≤ fuel) :
    Reads ts (flowSequence fuel isFirst) fun _ _ => True
  flowMapping {ts : List Token} {isFirst : Bool} (h : 4 * ts.length + 5 ≤ fuel) :
    Reads ts (flowMapping fuel isFirst) fun _ _ => True
  flowValue {ts : List Token} (h : 4 * ts.length + 1 ≤ fuel) :
    Reads ts (flowValue fuel) fun _ _ => True
  flowPart {ts : List Token} (h : 4 * ts.length + 4 ≤ fuel) :
    Reads ts (flowPart fuel) fun _ _ => True

namespace Suffices

variable {fuel : Nat}

theorem node_succ {place : Place} (s : Suffices fuel) (h : 4 * ts.length + 3 ≤ fuel + 1) :
    Reads ts (Reader.node (fuel + 1) place) fun _ us => us.length < ts.length := by
  rw [Reader.node]
  refine .peek fun t ht => ?_
  split
  · exact .pass ht nofun aliased_reads
  · refine properties_reads.bind fun p us hs hp => ?_
    have hle := hs.length_le
    -- what passes over a token is the properties or, if they are bare, the content
    refine (s.content (by omega)).mono fun _ vs hvs hlt => ?_
    rcases hp with hp | hp
    · exact Nat.lt_of_lt_of_le (hlt hp) hle
    · exact Nat.lt_of_le_of_lt hvs.length_le hp

theorem content_succ {place : Place} {p : Properties} (s : Suffices fuel)
    (h : 4 * ts.length + 2 ≤ fuel + 1) :
    Reads ts (Reader.content (fuel + 1) place p) fun _ us => p.IsBare → us.length < ts.length := by
  have hempty : Reads ts (emptyContent p) fun _ us => p.IsBare → us.length < ts.length :=
    emptyContent_reads.mono fun _ _ _ hus hbare => absurd hbare hus.2
  rw [Reader.content]
  refine .peek fun t ht => ?_
  -- the token that opens a list or a mapping makes room for the rules between it and a node
  have hroom : t ≠ .textEnd → 4 * ts.tail.length + 5 ≤ fuel := fun hne => by
    have := length_tail_lt ht hne
    omega
  split
  · exact .mono (.pass ht nofun addScalar_reads) fun _ _ _ hlt _ => hlt
  · exact .mono (.pass ht nofun (addSequence_reads (s.flowSequence (hroom nofun))))
      fun _ _ _ hlt _ => hlt
  · exact .mono (.pass ht nofun (addMapping_reads (s.flowMapping (hroom nofun))))
      fun _ _ _ hlt _ => hlt
  · split
    · exact hempty
    · exact .mono (.pass ht nofun (addSequence_reads (s.blockSequence (hroom nofun))))
        fun _ _ _ hlt _ => hlt
  · split
    · exact hempty
    · exact .mono (.pass ht nofun (addMapping_reads (s.blockMapping (hroom nofun))))
        fun _ _ _ hlt _ => hlt
  · split
    · exact .mono (addSequence_reads (s.flatSequence (by omega))) fun _ _ _ hlt _ => hlt ht
    · exact hempty
  · exact hempty

theorem blockSequence_succ (s : Suffices fuel) (h : 4 * ts.length + 5 ≤ fuel + 1) :
    Reads ts (Reader.blockSequence (fuel + 1)) fun _ _ => True := by
  rw [Reader.blockSequence]
  refine .peek fun t ht => ?_
  split
  · have hlt := length_tail_lt ht nofun
    refine .advance (.peek fun t _ => ?_)
    have hrest : ∀ item us, us <:+ ts.tail → Reads us
        (do return item :: (← Reader.blockSequence fuel)) fun _ _ => True := fun item us hs => by
      have := hs.length_le
      exact (s.blockSequence (by omega)).bind fun _ _ _ _ => .pure trivial
    split
    · exact addEmpty_reads.bind fun item us hs _ => hrest item us hs
    · exact addEmpty_reads.bind fun item us hs _ => hrest item us hs
    · exact (s.node (by omega)).bind fun item us hs _ => hrest item us hs
  · exact .advance (.pure trivial)
  · exact .refuse

theorem flatSequence_succ (s : Suffices fuel) (h : 4 * ts.length + 1 ≤ fuel + 1) :
    Reads ts (Reader.flatSequence (fuel + 1))
      fun _ us => Next ts .blockEntry → us.length < ts.length := by
  rw [Reader.flatSequence]
  refine .peek fun t ht => ?_
  split
  · have hlt := length_tail_lt ht nofun
    refine .mono (.pass (Q := fun _ _ => True) ht nofun (.peek fun t _ => ?_)) fun _ _ _ h _ => h
    have hrest : ∀ item us, us <:+ ts.tail → Reads us
        (do return item :: (← Reader.flatSequence fuel)) fun _ _ => True := fun item us hs => by
      have := hs.length_le
      exact (s.flatSequence (by omega)).bind fun _ _ _ _ => .pure trivial
    split
    · exact addEmpty_reads.bind fun item us hs _ => hrest item us hs
    · exact addEmpty_reads.bind fun item us hs _ => hrest item us hs
    · exact addEmpty_reads.bind fun item us hs _ => hrest item us hs
    · exact addEmpty_reads.bind fun item us hs _ => hrest item us hs
    · exact (s.node (by omega)).bind fun item us hs _ => hrest item us hs
  · rename_i hne
    -- nothing is passed over, but then no entry came up
    exact .pure fun hnext => absurd (ht.unique hnext) hne

theorem blockMapping_succ (s : Suffices fuel) (h : 4 * ts.length + 5 ≤ fuel + 1) :
    Reads ts (Reader.blockMapping (fuel + 1)) fun _ _ => True := by
  rw [Reader.blockMapping]
  refine .peek fun t ht => ?_
  split
  · have hlt := length_tail_lt ht nofun
    refine .advance ((s.blockPart (by omega)).bind fun key us hs _ => ?_)
    have hle := hs.length_le
    have hrest : ∀ value vs, vs <:+ us → Reads vs
        (do return (key, value) :: (← Reader.blockMapping fuel)) fun _ _ => True :=
      fun value vs hvs => by
        have := hvs.length_le
        exact (s.blockMapping (by omega)).bind fun _ _ _ _ => .pure trivial
    refine .peek fun t ht => ?_
    split
    · have := length_tail_lt ht nofun
      exact .advance ((s.blockPart (by omega)).bind fun value vs hvs _ =>
        hrest value vs (hvs.trans (List.tail_suffix us)))
    · exact addEmpty_reads.bind fun value vs hvs _ => hrest value vs hvs
  · exact .advance (.pure trivial)
  · exact .refuse

theorem blockPart_succ (s : Suffices fuel) (h : 4 * ts.length + 4 ≤ fuel + 1) :
    Reads ts (Reader.blockPart (fuel + 1)) fun _ _ => True := by
  rw [Reader.blockPart]
  refine .peek fun t ht => ?_
  split
  · exact addEmpty_reads.mono fun _ _ _ _ => trivial
  · exact addEmpty_reads.mono fun _ _ _ _ => trivial
  · exact addEmpty_reads.mono fun _ _ _ _ => trivial
  · exact (s.node (by omega)).mono fun _ _ _ _ => trivial

theorem flowPart_succ (s : Suffices fuel) (h : 4 * ts.length + 4 ≤ fuel + 1) :
    Reads ts (Reader.flowPart (fuel + 1)) fun _ _ => True := by
  rw [Reader.flowPart]
  refine .peek fun t ht => ?_
  split
  · exact addEmpty_reads.mono fun _ _ _ _ => trivial
  · exact addEmpty_reads.mono fun _ _ _ _ => trivial
  · exact addEmpty_reads.mono fun _ _ _ _ => trivial
  · exact addEmpty_reads.mono fun _ _ _ _ => trivial
  · exact (s.node (by omega)).mono fun _ _ _ _ => trivial

theorem flowValue_succ (s : Suffices fuel) (h : 4 * ts.length + 1 ≤ fuel + 1) :
    Reads ts (Reader.flowValue (fuel + 1)) fun _ _ => True := by
  rw [Reader.flowValue]
  refine .peek fun t ht => ?_
  split
  · have := length_tail_lt ht nofun
    exact .advance (s.flowPart (by omega))
  · exact addEmpty_reads.mono fun _ _ _ _ => trivial

/-- Behind a comma that must stand between entries, the next entry. -/
theorem separated {isFirst : Bool} {rest : Unit → Reading α}
    (h : ∀ us, us <:+ ts → Reads us (rest ()) Q) :
    Reads ts (if (!isFirst) = true then
      match t with
      | .flowEntry => do
        let r ← advance
        rest r
      | _ => do
        let r ← throw .notYaml
        rest r
      else rest ()) Q := by
  split
  · split
    · exact .advance (h _ (List.tail_suffix ts))
    · exact .refuse_bind
  · exact h ts (List.suffix_refl ts)

theorem flowSequence_succ {isFirst : Bool} (s : Suffices fuel) (h : 4 * ts.length + 5 ≤ fuel + 1) :
    Reads ts (Reader.flowSequence (fuel + 1) isFirst) fun _ _ => True := by
  rw [Reader.flowSequence]
  refine .peek fun t ht => ?_
  split
  · exact .advance (.pure trivial)
  · refine separated fun us hs => .peek fun t ht => ?_
    have hle := hs.length_le
    have hrest : ∀ item vs, vs.length < us.length → Reads vs
        (do return item :: (← Reader.flowSequence fuel false)) fun _ _ => True :=
      fun item vs hvs => (s.flowSequence (by omega)).bind fun _ _ _ _ => .pure trivial
    split
    · exact .advance (.pure trivial)
    · have hlt := length_tail_lt ht nofun
      refine .advance ((s.flowPart (by omega)).bind fun key vs hvs _ => ?_)
      have := hvs.length_le
      refine (s.flowValue (by omega)).bind fun value ws hws _ => ?_
      have := hws.length_le
      refine addPlain_reads.bind fun item _ _ heq => hrest item _ ?_
      subst heq
      omega
    · exact (s.node (by omega)).bind fun item vs _ hvs => hrest item vs hvs

theorem flowMapping_succ {isFirst : Bool} (s : Suffices fuel) (h : 4 * ts.length + 5 ≤ fuel + 1) :
    Reads ts (Reader.flowMapping (fuel + 1) isFirst) fun _ _ => True := by
  rw [Reader.flowMapping]
  refine .peek fun t ht => ?_
  split
  · exact .advance (.pure trivial)
  · refine separated fun us hs => .peek fun t ht => ?_
    have hle := hs.length_le
    have hrest : ∀ entry vs, vs.length < us.length → Reads vs
        (do return entry :: (← Reader.flowMapping fuel false)) fun _ _ => True :=
      fun entry vs hvs => (s.flowMapping (by omega)).bind fun _ _ _ _ => .pure trivial
    split
    · exact .advance (.pure trivial)
    · have hlt := length_tail_lt ht nofun
      refine .advance ((s.flowPart (by omega)).bind fun key vs hvs _ => ?_)
      have := hvs.length_le
      refine (s.flowValue (by omega)).bind fun value ws hws _ => hrest _ ws ?_
      have := hws.length_le
      omega
    · refine (s.node (by omega)).bind fun key vs _ hvs => ?_
      exact addEmpty_reads.bind fun value _ _ heq => hrest _ _ (heq ▸ hvs)

end Suffices

/-- **Reading never runs out of rounds** if it has a few for every token. -/
theorem enough (fuel : Nat) : Suffices fuel := by
  induction fuel with
  | zero => constructor <;> intros <;> omega
  | succ fuel ih =>
    exact ⟨ih.node_succ, ih.content_succ, ih.blockSequence_succ, ih.flatSequence_succ,
      ih.blockMapping_succ, ih.blockPart_succ, ih.flowSequence_succ, ih.flowMapping_succ,
      ih.flowValue_succ, ih.flowPart_succ⟩

/-! ## Documents -/

theorem documentEnds_reads {fuel : Nat} (h : ts.length < fuel) :
    Reads ts (documentEnds fuel) fun _ _ => True := by
  induction fuel generalizing ts with
  | zero => omega
  | succ fuel ih =>
    rw [documentEnds]
    refine .peek fun t ht => ?_
    split
    · have := length_tail_lt ht nofun
      exact .advance (ih (by omega))
    · exact .pure trivial

theorem directives_reads {fuel : Nat} {hasVersion : Bool} {handles : List (String × String)}
    (h : ts.length < fuel) : Reads ts (directives fuel hasVersion handles) fun _ _ => True := by
  induction fuel generalizing ts hasVersion handles with
  | zero => omega
  | succ fuel ih =>
    rw [directives]
    refine .peek fun t ht => ?_
    split
    · have := length_tail_lt ht nofun
      refine .advance ?_
      split
      · split
        · exact .refuse_bind
        · exact ih (by omega)
      · split
        · exact .refuse_bind
        · exact ih (by omega)
      · exact ih (by omega)
    · exact .pure trivial

variable {fuel : Nat}

theorem root_reads {place : Place} (h : 4 * ts.length + 3 ≤ fuel) :
    Reads ts (node fuel place) fun _ _ => True :=
  ((enough fuel).node h).mono fun _ _ _ _ => trivial

theorem markedRoot_reads (h : 4 * ts.length + 3 ≤ fuel) :
    Reads ts (markedRoot fuel) fun _ _ => True := by
  refine .peek fun t ht => ?_
  split
  · exact addEmpty_reads.mono fun _ _ _ _ => trivial
  · exact addEmpty_reads.mono fun _ _ _ _ => trivial
  · exact addEmpty_reads.mono fun _ _ _ _ => trivial
  · exact addEmpty_reads.mono fun _ _ _ _ => trivial
  · exact root_reads h

theorem markedDocument_reads (h : 4 * ts.length + 3 ≤ fuel) :
    Reads ts (markedDocument fuel) fun _ _ => True := by
  refine (directives_reads (by omega)).bind fun handles us hs _ => .peek fun t ht => ?_
  have := hs.length_le
  split
  · have := length_tail_lt ht nofun
    exact .advance (.update (fun _ => rfl) (markedRoot_reads (by omega)))
  · exact .refuse

theorem document_reads (h : 4 * ts.length + 3 ≤ fuel) :
    Reads ts (document fuel) fun _ _ => True := by
  refine .peek fun t ht => ?_
  split
  · exact .pure trivial
  · exact (markedDocument_reads h).bind fun _ _ _ _ => .pure trivial
  · exact (markedDocument_reads h).bind fun _ _ _ _ => .pure trivial
  · exact .update (fun _ => rfl) ((root_reads h).bind fun _ _ _ _ => .pure trivial)

theorem onlyDocument_reads (h : 4 * ts.length + 3 ≤ fuel) :
    Reads ts (onlyDocument fuel) fun _ _ => True := by
  refine (document_reads h).bind fun root us hs _ => ?_
  have := hs.length_le
  split
  · exact .pure trivial
  · refine (documentEnds_reads (by omega)).bind fun _ vs hvs _ => .peek fun t _ => ?_
    have := hvs.length_le
    split
    · exact .pure trivial
    · refine (directives_reads (by omega)).bind fun _ _ _ _ => .peek fun _ _ => .refuse

end Reader

open Reader in
/-- **A text that cannot be read as a document** is no YAML, or it could not be cut into
tokens. -/
theorem ofText?_fails {text : List Char} :
    FailsOnly (Fault (tokens text)) (Document.ofText? text) := by
  have hreads : Reads (tokens text) (onlyDocument (4 * (tokens text).length + 8))
      fun _ _ => True := onlyDocument_reads (by omega)
  have hends : Ends (Fault (tokens text)) (fun _ => True) (Document.ofText? text) :=
    (hreads ⟨tokens text, [], [], ⟨#[]⟩⟩ rfl).bind fun _ _ => trivial
  intro f hf
  rwa [hf] at hends

end Yaml

end ApiMock
