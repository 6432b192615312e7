import ApiMock.OpenApi.Validate
import ApiMock.Proofs.Blueprint.Made
import ApiMock.Proofs.Document.Reading
import ApiMock.Proofs.Emit.Paths
import ApiMock.Proofs.OpenApi.Pointers
/-!
# Document — accepted documents are generated

Of what is read of an accepted document a blueprint is made, and with the
default settings and no seed records all its files are written
(`accepted_generates`). Acceptance alone does not suffice: a body that is a
reference to a text is accepted and not read (`accepted_unread`).
-/

namespace ApiMock

open Entries OpenApi Sequence

variable {v : Version} {document d : Data} {w : Slot} {role : Role} {o : Operation}

/-! ## Blueprints and files -/

/-- The status that a route takes can be told. -/
theorem firstStatus_gives {responses : List Response} {first : Char}
    (hfirst : first = '2' ∨ first = '4') (h : ∀ r ∈ responses, r.Sound) :
    ∃ n, firstStatus first responses = .ok n := by
  rw [firstStatus]
  split
  · exact ⟨none, rfl⟩
  · rename_i r hfind
    have hfound := List.find?_some hfind
    simp only [Bool.and_eq_true, decide_eq_true_eq] at hfound
    have hcode : r.status.toList.head? = some '2' ∨ r.status.toList.head? = some '4' := by
      rcases hfirst with rfl | rfl
      · exact .inl hfound.1
      · exact .inr hfound.1
    obtain ⟨n, hn⟩ := (h r (List.mem_of_find?_eq_some hfind)).status hcode hfound.2
    exact ⟨some n, by rw [hn]; rfl⟩

/-- **A sound operation has a route.** -/
theorem Operation.Sound.classify (h : o.Sound) : ∃ r, Route.classify o = .ok r := by
  obtain ⟨success, hsuccess⟩ := firstStatus_gives (.inl rfl) h.responses
  obtain ⟨failure, hfailure⟩ := firstStatus_gives (.inr rfl) h.responses
  rw [Route.classify, hsuccess, hfailure]
  exact ⟨_, rfl⟩

/-- **Of a sound specification a blueprint is made.** -/
theorem Spec.Sound.blueprint {s : Spec} (h : s.Sound) (config : Option Config)
    (seed : Option Seed) : ∃ b log, (s.blueprint config seed).outcome = (.ok b, log) := by
  refine Blueprint.exists_blueprint ⟨fun e he => (h.schemas e he).jsonValued,
    fun o ho => (h.operations o ho).valued⟩ (fun e he => ?_) ?_
  · exact ⟨(h.schemas e he).fine.comment,
      fun p hp => ((h.schemas e he).of_mem_properties hp).fine.comment⟩
  · obtain ⟨rs, hrs⟩ := mapM_isOk fun o ho => (h.operations o ho).classify
    exact ⟨_, by rw [Spec.routes, hrs]; rfl⟩

/-- All files are written if the delay and the seed records have a literal. -/
theorem exists_files {b : Blueprint} (hdelay : ∃ t, Emit.delayLiteral b.config = .ok t)
    (hseeds : ∀ g ∈ b.groups, ∃ t, Json.literalBlock (.list g.seed) = .ok t) :
    ∃ fs, Emit.files b = .ok fs := by
  obtain ⟨delay, hdelay⟩ := hdelay
  have hstores : ∀ g ∈ b.groups, ∃ text, Emit.storeFile g = .ok text := by
    intro g hg
    obtain ⟨records, hrecords⟩ := hseeds g hg
    rw [Emit.storeFile, hrecords]
    exact ⟨_, rfl⟩
  rw [Emit.files, Emit.fixedFiles, Emit.configFile, hdelay]
  exact Emit.foldlM_addGroup_isOk _ hstores

/-- **With the default settings and no seed records all files are written.** -/
theorem files_of_defaults {s : Spec} {b : Blueprint} {log : List LogEntry}
    (h : (s.blueprint none none).outcome = (.ok b, log)) : ∃ fs, Emit.files b = .ok fs := by
  obtain ⟨-, -, hconfig⟩ := Blueprint.settings_eq h
  have hdelay : Emit.delayLiteral Config.defaults = .ok "200" := by decide +kernel
  refine exists_files ⟨"200", hconfig ▸ hdelay⟩ fun g hg => ?_
  rw [Blueprint.seed_eq_of_mem_groups h hg]
  exact ⟨_, rfl⟩

/-! ## Acceptance -/

/-- A step without messages that let a run go on succeeded. -/
theorem outcome_lift_bind {α β : Type} {x : Except Failure α} {f : α → Logged β} {b : β}
    {log : List LogEntry} : ((liftM x : Logged α) >>= f).outcome = (.ok b, log) ↔
      ∃ a, x = .ok a ∧ (f a).outcome = (.ok b, log) := by
  constructor
  · intro h
    cases x with
    | error e => cases h
    | ok a => exact ⟨a, rfl, h⟩
  · rintro ⟨a, rfl, h⟩
    exact h

/-- **What is accepted** is a mapping that, with texts for keys, names a
version and fits the records of that version. -/
theorem validate_iff {raw : Data} : (∃ log, (validate raw).outcome = (.ok document, log)) ↔
    (∃ es, raw = .map es) ∧ raw.withTextKeys = .ok document ∧
      ∃ v, versionOf document = .ok v ∧ Fits (fields v) (.record .openApi) document := by
  constructor
  · rintro ⟨log, h⟩
    cases raw with
    | map es =>
      obtain ⟨keyed, hkeyed, h⟩ := outcome_lift_bind.mp h
      obtain ⟨v, hv, h⟩ := outcome_lift_bind.mp h
      cases hfits : fits v keyed with
      | error m =>
        rw [hfits] at h
        cases h
      | ok u =>
        rw [hfits] at h
        obtain ⟨text, -, h⟩ := outcome_lift_bind.mp h
        cases h
        exact ⟨⟨es, rfl⟩, hkeyed, v, hv, hfits⟩
    | _ => cases h
  · rintro ⟨⟨es, rfl⟩, hkeyed, v, hv, hfits⟩
    -- the version was shown once already to be told, so it can be reported
    obtain ⟨text, htext, -⟩ := of_bind_ok hv
    refine ⟨[⟨.debug, .document, s!"Validated OpenAPI {text} document"⟩], ?_⟩
    refine outcome_lift_bind.mpr ⟨document, hkeyed, outcome_lift_bind.mpr ⟨v, hv, ?_⟩⟩
    rw [show fits v document = .ok () from hfits]
    exact outcome_lift_bind.mpr ⟨text, htext, rfl⟩

/-- **An accepted document that is readable is generated**: it is read, a
blueprint is made of it, and with the default settings and no seed records
all files are written. -/
theorem accepted_generates {raw : Data} {log : List LogEntry}
    (h : (validate raw).outcome = (.ok document, log)) (hv : versionOf document = .ok v)
    (hr : Readable v document) :
    ∃ s b made fs, Spec.parse document = .ok s ∧
      (s.blueprint none none).outcome = (.ok b, made) ∧ Emit.files b = .ok fs := by
  obtain ⟨-, hkeyed, w, hw, hfit⟩ := validate_iff.mp ⟨log, h⟩
  obtain rfl : w = v := Except.ok.inj (hw.symm.trans hv)
  obtain ⟨s, hs, hsound⟩ := parse_gives hr (Data.textKeyed_of_withTextKeys hkeyed) hfit
  obtain ⟨b, made, hb⟩ := hsound.blueprint none none
  obtain ⟨fs, hfs⟩ := files_of_defaults hb
  exact ⟨s, b, made, fs, hs, hb, hfs⟩

/-! ## A document that is accepted wherever its body is looked for -/

/-- An operation with a parameter and a response from the components, and a
body from where the pointer leads. -/
def storeBook (pointer : String) : Data := .object [
  ("parameters", .list [referTo "#/components/parameters/Limit"]),
  ("requestBody", referTo pointer),
  ("responses", .object [("201", referTo "#/components/responses/Stored")])]

/-- An object with one property. -/
def bookSchema : Data := .object [("type", .str "object"),
  ("properties", .object [("title", .object [("type", .str "string")])])]

/-- A document with this operation. -/
def shelf (pointer : String) : Data := .object [
  ("openapi", .str "3.0.3"),
  ("info", .object [("title", .str "Shelf"), ("version", .str "1")]),
  ("paths", .object [("/books", .object [("post", storeBook pointer)])]),
  ("components", .object [
    ("schemas", .object [("Book", bookSchema)]),
    ("parameters", .object [("Limit", .object [("name", .str "limit"), ("in", .str "query"),
      ("schema", .object [("type", .str "integer")])])]),
    ("requestBodies", .object [("Book", .object [("content", .object [
      ("application/json", .object [("schema", referTo "#/components/schemas/Book")])])])]),
    ("responses", .object [("Stored", .object [("description", .str "ok")])])])]

/-- The entries of the operation, with the body from the components. -/
def shelved : Role → String
  | .parameter => "#/components/parameters/Limit"
  | .body => "#/components/requestBodies/Book"
  | .response => "#/components/responses/Stored"

theorem shelf_fits (pointer : String) : Fits (fields .v30) (.record .openApi) (shelf pointer) := by
  simp [Fits, shelf, storeBook, bookSchema, referTo, Shape.check, wholeKeys, checkFields,
    checkEntries, checkItems, checkOthers, Field.written?, under, here, Except.mapError, fields,
    fields30, sharedFields, need, may, also, plain, schemaOrRef, orRef, dataType30,
    parameterLocation, Data.object, Data.str, Data.fieldText, Data.lookup, List.lookup]
  rfl

/-- **Wherever the pointer leads**, the document is accepted. -/
theorem shelf_accepted (pointer : String) :
    ∃ log, (validate (shelf pointer)).outcome = (.ok (shelf pointer), log) := by
  have hversion : versionOf (shelf pointer) = .ok .v30 := by
    rw [versionOf, show versionText (shelf pointer) = .ok "3.0.3" from rfl]
    rfl
  exact validate_iff.mpr ⟨⟨_, rfl⟩, rfl, .v30, hversion, shelf_fits pointer⟩

theorem entry_of_shelf (hw : w ∈ Slot.ofDocument (shelf (shelved .body))) (he : w.Entry role d) :
    d = referTo (shelved role) := by
  obtain rfl := List.mem_singleton.mp hw
  cases he with
  | shared hs hd =>
    cases hs
    cases hd
  | own ho hs hd =>
    cases ho
    cases hs
    exact List.mem_singleton.mp hd
  | body hb =>
    cases hb
    rfl
  | response hr hes he =>
    cases hr
    cases hes
    rw [List.mem_singleton.mp he]
    rfl

theorem typed_regular (word : String) :
    Schema.RegularThroughout (.object [("type", .str word)]) := by
  refine Schema.Regular.throughout (.inline ?_ ?_ ?_ ?_) ?_
  · simp [Schema.Lacks, Data.lookup, List.lookup]
  · rintro members ⟨⟩
  · rintro listed values ⟨⟩
  · rintro ⟨⟩
  · rintro c (⟨-, ⟨⟩, -⟩ | ⟨-, ⟨⟩⟩ | ⟨-, ⟨⟩, -⟩)

theorem bookSchema_regular : Schema.RegularThroughout bookSchema := by
  refine Schema.Regular.throughout (.inline ?_ ?_ ?_ ?_) ?_
  · decide
  · rintro members ⟨⟩
  · rintro listed values ⟨⟩
  · rintro ⟨⟩
  · rintro c (⟨-, ⟨⟩, -⟩ | ⟨-, ⟨⟩⟩ | ⟨-, ⟨⟩, he⟩)
    obtain rfl := List.mem_singleton.mp he
    exact typed_regular "string"

theorem referTo_regular (pointer : String) : Schema.RegularThroughout (referTo pointer) := by
  refine Schema.Regular.throughout (.reference rfl (.inl rfl)) ?_
  rintro c (⟨h, -, -⟩ | ⟨h, -⟩ | ⟨h, -, -⟩) <;> cases h "$ref" (by simp)

/-- With the body from the components the document is readable. -/
theorem shelf_readable : Readable .v30 (shelf (shelved .body)) where
  references := by
    intro w hw role entry he _
    rw [entry_of_shelf hw he]
    cases role <;>
      exact leads_of_component (shelf_fits _) rfl rfl List.mem_cons_self
        (by rintro _ ⟨⟩; decide) rfl
  schemas := by
    intro d hread
    cases hread with
    | definition hc hs hes he =>
      cases hc
      cases hs
      cases hes
      obtain rfl := List.mem_singleton.mp he
      exact bookSchema_regular
    | @offered w role entry target _ hw he ht hd =>
      rw [entry_of_shelf hw he] at ht
      cases role <;> cases ht <;> cases hd
      case parameter.refl.schema hs =>
        cases hs
        exact typed_regular "integer"
      case parameter.refl.content _ hrole _ _ => exact absurd rfl hrole
      case body.refl.content hm _ hc hs =>
        cases hc
        cases List.mem_singleton.mp hm
        cases hs
        exact referTo_regular _
      case response.refl.content _ _ hc _ => cases hc
  statuses := by
    intro w hw listed es hr hes e he
    obtain rfl := List.mem_singleton.mp hw
    cases hr
    cases hes
    obtain rfl := List.mem_singleton.mp he
    exact fun _ _ => ⟨201, rfl⟩

/-- So all its files are written. -/
theorem shelf_generates : ∃ log s b made fs,
    (validate (shelf (shelved .body))).outcome = (.ok (shelf (shelved .body)), log) ∧
      versionOf (shelf (shelved .body)) = .ok .v30 ∧ Readable .v30 (shelf (shelved .body)) ∧
      Spec.parse (shelf (shelved .body)) = .ok s ∧
      (s.blueprint none none).outcome = (.ok b, made) ∧ Emit.files b = .ok fs := by
  obtain ⟨log, haccepted⟩ := shelf_accepted (shelved .body)
  obtain ⟨s, b, made, fs, h⟩ := accepted_generates haccepted rfl shelf_readable
  exact ⟨log, s, b, made, fs, haccepted, rfl, shelf_readable, h⟩

/-- With a text for its body the document is accepted all the same, and is
not read. So not everything that is accepted is generated. -/
theorem accepted_unread : ¬ ∀ (raw document : Data) (log : List LogEntry),
    (validate raw).outcome = (.ok document, log) →
      ∃ s b made fs, Spec.parse document = .ok s ∧
        (s.blueprint none none).outcome = (.ok b, made) ∧ Emit.files b = .ok fs := by
  intro h
  obtain ⟨log, haccepted⟩ := shelf_accepted "#/info/title"
  obtain ⟨s, b, made, fs, hs, -⟩ := h _ _ log haccepted
  have hstops : (Spec.parse (shelf "#/info/title")).toOption.isSome = false := by decide +kernel
  rw [hs] at hstops
  cases hstops

end ApiMock
