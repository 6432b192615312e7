import ApiMock.Proofs.Document.Readable
/-!
# Document — how an accepted document is read

Every part of an accepted document that is readable is read: the bodies and
the responses, the parameters, the operations, the definitions, and what the
document says about itself (`parse_gives`). Nothing in what is read is in the
way of a route or a type.
-/

namespace ApiMock

open Entries OpenApi Sequence

variable {v : Version} {document shared d : Data} {es listed targets : List (Scalar × Data)}
  {path method : String} {w : Slot} {role : Role} {o : Operation}

/-! ## Where the versions differ -/

/-- The responses of an operation, which one version asks for and the other
does not. -/
theorem responses_of_fits (hfit : Fits (fields v) (.record .operation) (.map es)) :
    ∃ listed, ((Data.lookup "responses" es).getD .null).orEmpty.entries = .ok listed ∧
      ∀ e ∈ listed, Fits (fields v) (orRef .response) e.2 := by
  cases v with
  | v30 =>
    have hin : need "responses" (.mapping (orRef .response)) ∈ fields .v30 .operation := by
      simp [fields, fields30]
    exact (hfit.orMissing hin).optionalEntries
  | v31 =>
    have hin : may "responses" (.mapping (orRef .response)) ∈ fields .v31 .operation := by
      simp [fields, fields31]
    exact (hfit.fieldOf hin rfl).optionalEntries

/-- So it is with the paths of a document. -/
theorem paths_of_fits (hfit : Fits (fields v) (.record .openApi) (.map es)) :
    ∃ items, ((Data.lookup "paths" es).getD .null).orEmpty.entries = .ok items ∧
      ∀ e ∈ items, Fits (fields v) (.record .pathItem) e.2 := by
  cases v with
  | v30 =>
    have hin : need "paths" (.mapping (.record .pathItem)) ∈ fields .v30 .openApi := by
      simp [fields, fields30]
    exact (hfit.orMissing hin).optionalEntries
  | v31 =>
    have hin : may "paths" (.mapping (.record .pathItem)) ∈ fields .v31 .openApi := by
      simp [fields, fields31]
    exact (hfit.fieldOf hin rfl).optionalEntries

/-- The definitions of a document are accepted as schemas, though one version
takes no references for them. -/
theorem definitions_of_fits (hfit : Fits (fields v) (.record .openApi) (.map es))
    (hkeys : (Data.map es).TextKeyed) :
    ∃ schemas ds, ((Data.lookup "components" es).getD .null).orEmpty.field "schemas" = .ok schemas ∧
      schemas.orEmpty.entries = .ok ds ∧ (Data.map ds).TextKeyed ∧
      ∀ e ∈ ds, Fits (fields v) schemaOrRef e.2 := by
  have hcomponents : may "components" (.record .components) ∈ fields v .openApi := by
    cases v <;> simp [fields, fields30, fields31]
  rcases (hfit.fieldOf hcomponents rfl).optional with hnull | hrecord
  · refine ⟨.null, [], ?_, rfl, .map (by simp) (by simp), by simp⟩
    rw [show (Data.lookup "components" es).getD .null = .null from hnull]
    rfl
  · obtain ⟨cs, hcs, -⟩ := hrecord.record
    have hcs : (Data.lookup "components" es).getD .null = .map cs := hcs
    have hcsKeys : (Data.map cs).TextKeyed := hcs ▸ hkeys.getD_lookup
    have hrecord : Fits (fields v) (.record .components) (.map cs) := hcs ▸ hrecord
    have hschemas : ∃ ds, ((Data.lookup "schemas" cs).getD .null).orEmpty.entries = .ok ds ∧
        ∀ e ∈ ds, Fits (fields v) schemaOrRef e.2 := by
      cases v with
      | v30 =>
        have hin : may "schemas" (.mapping schemaOrRef) ∈ fields .v30 .components := by
          simp [fields, fields30]
        exact (hrecord.fieldOf hin rfl).optionalEntries
      | v31 =>
        have hin : may "schemas" (.mapping (.record .schema)) ∈ fields .v31 .components := by
          simp [fields, fields31]
        obtain ⟨ds, hds, hall⟩ := (hrecord.fieldOf hin rfl).optionalEntries
        exact ⟨ds, hds, fun e he => (hall e he).other (by simp)⟩
    obtain ⟨ds, hds, hall⟩ := hschemas
    refine ⟨_, ds, ?_, hds, hcsKeys.getD_lookup.of_entries hds, hall⟩
    rw [hcs, Data.orEmpty_map, Data.field_map]

/-! ## Bodies and responses -/

/-- **Content is read** if its schemas are regular. -/
theorem parseContent_gives {content : Data}
    (hfit : Fits (fields v) (.optional (.mapping (.record .mediaType))) content)
    (hkeys : content.TextKeyed)
    (hregular : ∀ media k fields d, content = .map media → (k, .map fields) ∈ media →
      Data.lookup "schema" fields = some d → Schema.RegularThroughout d) :
    Gives (parseContent content) fun read => contentFaults read = [] ∧ ∀ e ∈ read, e.2.Usable := by
  have hempty : Gives (parseContent (.map [])) fun read =>
      contentFaults read = [] ∧ ∀ e ∈ read, e.2.Usable := ⟨[], rfl, rfl, by simp⟩
  rcases hfit.optional with rfl | hfit
  · exact hempty
  obtain ⟨media, rfl, hmedia⟩ := hfit.mapping
  have hread : Gives (parseContent (.map media))
      (List.Forall₂ (fun e n => n.1 = e.1 ∧ n.2.Usable) media) := by
    rw [parseContent, Data.orEmpty_map]
    refine Gives.mapM fun e he => ?_
    obtain ⟨k, c⟩ := e
    obtain ⟨fields', rfl, -⟩ := (hmedia _ he).record
    have hin : also "media_type_schema" (may "schema" schemaOrRef) ∈ fields v .mediaType := by
      cases v <;> simp [fields, fields30, fields31, sharedFields]
    rw [Data.orEmpty_map]
    refine (Schema.parse_gives_of_optional (hkeys.value he).getD_lookup
      ((hmedia _ he).fieldOf hin rfl) ?_).bind fun s hs => .pure ⟨rfl, hs⟩
    exact Schema.regularThroughout_of_missing fun d => hregular media k fields' d rfl he
  refine hread.mono fun read hread => ⟨?_, fun n hn => ?_⟩
  · refine Schema.keyFaults_eq_nil fun k hk => ?_
    obtain ⟨n, hn, rfl⟩ := List.mem_map.mp hk
    obtain ⟨e, he, hkey, -⟩ := exists_of_mem_right hread hn
    exact hkey ▸ hkeys.key he
  · obtain ⟨e, -, -, husable⟩ := exists_of_mem_right hread hn
    exact husable

/-- The content of the record of a body or a response fits. -/
theorem fits_content (role : Role) (hrole : role ≠ .parameter)
    (h : Fits (fields v) (.record role.model) (.map es)) :
    Fits (fields v) (.optional (.mapping (.record .mediaType)))
      ((Data.lookup "content" es).getD .null) := by
  cases role with
  | parameter => exact absurd rfl hrole
  | body =>
    have hin : need "content" (.mapping (.record .mediaType)) ∈ fields v .requestBody := by
      cases v <;> simp [fields, fields30, fields31, sharedFields]
    exact h.orMissing hin
  | response =>
    have hin : may "content" (.mapping (.record .mediaType)) ∈ fields v .response := by
      cases v <;> simp [fields, fields30, fields31, sharedFields]
    exact h.fieldOf hin rfl

/-- So the content is read of what an entry leads to. -/
theorem contentOf_gives (role : Role) (hrole : role ≠ .parameter)
    (h : Fits (fields v) (.record role.model) (.map es)) (hkeys : (Data.map es).TextKeyed)
    (hoffers : ∀ d, role.Offers (.map es) d → Schema.RegularThroughout d) :
    Gives (parseContent ((Data.lookup "content" es).getD .null)) fun read =>
      contentFaults read = [] ∧ ∀ e ∈ Data.textKeyed read, e.2.JsonValued := by
  refine (parseContent_gives (fits_content role hrole h) hkeys.getD_lookup ?_).mono ?_
  · intro media k fields' d hcontent hmedia hschema
    refine hoffers d (.content hrole ?_ hmedia hschema)
    cases hc : Data.lookup "content" es with
    | none =>
      rw [hc] at hcontent
      cases hcontent
    | some c =>
      rw [hc] at hcontent
      exact congrArg some hcontent
  · exact fun read hread =>
      ⟨hread.1, jsonValued_of_mem_textKeyed fun e he => (hread.2 e he).jsonValued⟩

/-- **A body is read**, or there is none. -/
theorem parseBody_gives (h : Role.body.Ignores d ∨ Fits (fields v) (.record .requestBody) d)
    (hkeys : d.TextKeyed) (hoffers : ∀ s, Role.body.Offers d s → Schema.RegularThroughout s) :
    Gives (parseBody d) fun read => ∀ b, read = some b → ∀ e ∈ b.content, e.2.JsonValued := by
  by_cases htruthy : d.truthy = true
  · have hfit := h.resolve_left (by simp [Role.Ignores, htruthy])
    obtain ⟨es, rfl, -⟩ := hfit.record
    obtain ⟨read, hread, hfaults, hvalued⟩ :=
      contentOf_gives .body (by decide) hfit hkeys hoffers
    refine ⟨some ⟨((Data.lookup "required" es).getD .null).truthy, Data.textKeyed read⟩, ?_, ?_⟩
    · rw [parseBody, if_pos htruthy]
      simp only [Data.field_map, ok_bind, hread, hfaults]
      rfl
    · rintro b ⟨⟩
      exact hvalued
  · exact ⟨none, if_neg htruthy, by simp⟩

/-- **A response is read** under its status code. -/
theorem parseResponse_gives (status : Scalar)
    (h : Role.response.Ignores d ∨ Fits (fields v) (.record .response) d) (hkeys : d.TextKeyed)
    (hoffers : ∀ s, Role.response.Offers d s → Schema.RegularThroughout s) :
    Gives (parseResponse status d) fun r =>
      r.status = status.shown ∧ ∀ e ∈ r.content, e.2.JsonValued := by
  rcases h with hfalse | hfit
  · refine ⟨⟨status.shown, "", []⟩, ?_, rfl, by simp⟩
    rw [parseResponse, Data.orEmpty, if_neg (by simpa [Role.Ignores] using hfalse)]
    rfl
  · obtain ⟨es, rfl, -⟩ := hfit.record
    have hin : need "description" .text ∈ fields v .response := by
      cases v <;> simp [fields, fields30, fields31, sharedFields]
    obtain ⟨description, hneeded, htext⟩ := hfit.needed hin rfl rfl
    have hdescription : Data.lookup "description" es = some description := hneeded
    obtain ⟨t, ht⟩ := htext.text
    have hnone :
        (if description.truthy then description.textFaults "description" else []) = [] := by
      rw [Data.textFaults, ht, ite_self]
    obtain ⟨read, hread, hfaults, hvalued⟩ :=
      contentOf_gives .response (by decide) hfit hkeys hoffers
    refine ⟨⟨status.shown, description.fieldText?.getD "", Data.textKeyed read⟩, ?_, rfl, hvalued⟩
    simp only [parseResponse, Data.orEmpty_map, Data.field_map, hdescription, Option.getD_some,
      ok_bind, hread, hnone, hfaults]
    rfl

/-! ## Parameters -/

/-- The parameter can be told from others and is read. -/
structure RawParameter.Sound (p : RawParameter) : Prop where
  name : p.name.isHashable = true
  location : p.location.isHashable = true
  parse : Gives p.parse fun q => q.schema.JsonValued

/-- What is a text can be a key. -/
theorem isHashable_of_fieldText {t : String} (h : d.fieldText = .ok t) : d.isHashable = true := by
  cases d with
  | scalar _ => rfl
  | _ => cases h

/-- A parameter whose fields fit is sound. -/
theorem sound_of_fits {name : Data} (hfit : Fits (fields v) (.record .parameter) (.map es))
    (hkeys : (Data.map es).TextKeyed)
    (hoffers : ∀ d, Role.parameter.Offers (.map es) d → Schema.RegularThroughout d)
    (hname : Data.lookup "name" es = some name) :
    RawParameter.Sound ⟨name, (Data.lookup "in" es).getD (.str "query"), es⟩ := by
  have hnamed : need "name" .text ∈ fields v .parameter := by
    cases v <;> simp [fields, fields30, fields31, sharedFields]
  have hplaced : also "param_in" (need "in" parameterLocation) ∈ fields v .parameter := by
    cases v <;> simp [fields, fields30, fields31, sharedFields]
  have hdescribed : may "description" .text ∈ fields v .parameter := by
    cases v <;> simp [fields, fields30, fields31, sharedFields]
  have hschema : also "param_schema" (may "schema" schemaOrRef) ∈ fields v .parameter := by
    cases v <;> simp [fields, fields30, fields31, sharedFields]
  obtain ⟨t, ht⟩ := (hfit.field hnamed hname).text
  have hlocation : ∃ place, ((Data.lookup "in" es).getD (.str "query")).fieldText = .ok place := by
    cases hl : Data.lookup "in" es with
    | none => exact ⟨"query", rfl⟩
    | some l => exact (hfit.field hplaced hl).word
  obtain ⟨place, hplace⟩ := hlocation
  have hdescription : (Schema.fieldOf "description" es).TextOrNull :=
    Schema.textOrNull_of_fits (hfit.fieldOf hdescribed rfl)
  refine ⟨isHashable_of_fieldText ht, isHashable_of_fieldText hplace, ?_⟩
  have hread : Gives (Schema.parse (Schema.fieldOf "schema" es)) Schema.Usable :=
    Schema.parse_gives_of_optional hkeys.getD_lookup (hfit.fieldOf hschema rfl)
      (Schema.regularThroughout_of_missing fun d hd => hoffers d (.schema hd))
  refine hread.bind fun s hs => ?_
  simp only [Data.textFaults, ht, hplace, Schema.optionalTextFaults_eq_nil hdescription]
  exact .pure hs.jsonValued

/-- An entry stands for a sound parameter, or for none. -/
theorem rawParameter_gives (hlead : Leads v document .parameter d) (hdoc : document.TextKeyed)
    (hkeys : d.TextKeyed)
    (hoffers : ∀ target s, Pointer.deref document d = .ok target →
      Role.parameter.Offers target s → Schema.RegularThroughout s) :
    Gives (rawParameter document d) fun found => ∀ p, found = some p → p.Sound := by
  obtain ⟨target, htarget, h⟩ := hlead
  have hnone : Gives (.ok none : Except Failure (Option RawParameter)) fun found =>
      ∀ p, found = some p → p.Sound := .pure (by simp)
  have htargetKeys := textKeyed_deref hdoc hkeys htarget
  rw [rawParameter, htarget, ok_bind]
  cases target with
  | map es =>
    simp only
    cases hname : Data.lookup "name" es with
    | none => exact hnone
    | some name =>
      have hfit := h.resolve_left fun hignores => by simpa [hname] using hignores es rfl
      refine .pure ?_
      rintro p ⟨⟩
      exact sound_of_fits hfit htargetKeys (fun s => hoffers _ s htarget) hname
  | _ => exact hnone

/-- **The parameters of a path and of an operation on it are read.** -/
theorem parseParameters_gives {shared own : Data} {ss os : List Data}
    (hshared : shared.elementsOrNone = .ok ss) (hown : own.elementsOrNone = .ok os)
    (hentries : ∀ d ∈ ss ++ os, Gives (rawParameter document d) fun found =>
      ∀ p, found = some p → p.Sound) :
    Gives (parseParameters document shared own) fun ps => ∀ p ∈ ps, p.schema.JsonValued := by
  have hmerged : Gives ((ss ++ os).foldlM (mergeParameter document) []) fun merged =>
      ∀ e ∈ merged, e.2.Sound := by
    refine Gives.foldlM (by simp) fun d hd merged hsound => ?_
    refine (hentries d hd).bind fun found hfound => ?_
    cases found with
    | none => exact .pure hsound
    | some p =>
      have hp := hfound p rfl
      simp only [hp.name, hp.location, Bool.and_self, if_true]
      refine .pure fun e he => ?_
      rcases mem_of_mem_put he with heq | he
      · exact heq ▸ hp
      · exact hsound e he
  rw [parseParameters, hshared, hown]
  refine hmerged.bind fun merged hsound => ?_
  exact Gives.mapM_forall fun e he => (hsound e he).parse

/-! ## Responses -/

/-- What stands in the place of a response once references are followed. -/
def Followed (v : Version) (document : Data) (e target : Scalar × Data) : Prop :=
  target.1 = e.1 ∧ Pointer.deref document e.2 = .ok target.2 ∧
    (Role.response.Ignores target.2 ∨ Fits (fields v) (.record .response) target.2)

/-- The references in the place of responses are followed. -/
theorem derefResponses_gives (hleads : ∀ e ∈ listed, Leads v document .response e.2) :
    Gives (listed.mapM fun e => do return (e.1, ← Pointer.deref document e.2))
      (List.Forall₂ (Followed v document) listed) := by
  refine Gives.mapM fun e he => ?_
  obtain ⟨target, htarget, h⟩ := hleads e he
  exact ⟨(e.1, target), by rw [htarget]; rfl, rfl, htarget, h⟩

/-- Nothing in the response is in the way of a route or a type. -/
structure Response.Sound (r : Response) : Prop where
  status : WritesStatus r.status.toList
  valued : ∀ e ∈ r.content, e.2.JsonValued

/-- The responses are read, each under its status code. -/
theorem parseResponses_gives (hdoc : document.TextKeyed) (hkeys : (Data.map listed).TextKeyed)
    (hfollowed : List.Forall₂ (Followed v document) listed targets)
    (hoffers : ∀ e ∈ listed, ∀ target s, Pointer.deref document e.2 = .ok target →
      Role.response.Offers target s → Schema.RegularThroughout s)
    (hstatuses : ∀ e ∈ listed, WritesStatus e.1.shown.toList) :
    Gives (targets.mapM fun e => parseResponse e.1 e.2) fun rs => ∀ r ∈ rs, r.Sound := by
  refine Gives.mapM_forall fun target htarget => ?_
  obtain ⟨e, he, hkey, hderef, h⟩ := exists_of_mem_right hfollowed htarget
  refine (parseResponse_gives target.1 h (textKeyed_deref hdoc (hkeys.value he) hderef)
    fun s => hoffers e he _ s hderef).mono fun r hr => ⟨?_, hr.2⟩
  rw [hr.1, hkey]
  exact hstatuses e he

/-! ## Operations -/

/-- Nothing in the operation is in the way of its route and its types. -/
structure Operation.Sound (o : Operation) : Prop where
  parameters : ∀ p ∈ o.parameters, p.schema.JsonValued
  body : ∀ b, o.body = some b → ∀ e ∈ b.content, e.2.JsonValued
  responses : ∀ r ∈ o.responses, r.Sound

theorem Operation.Sound.valued (h : o.Sound) : o.JsonValued :=
  ⟨h.parameters, h.body, fun r hr => (h.responses r hr).valued⟩

section

variable (hr : Readable v document) (hw : w ∈ Slot.ofDocument document)
include hr hw

/-- Every entry of an operation leads to what it should. -/
theorem Readable.leads (he : w.Entry role d) (hfit : Fits (fields v) (orRef role.model) d) :
    Leads v document role d :=
  leads_of_fits hfit (hr.references w hw role d he)

/-- All schemas are regular that it offers. -/
theorem Readable.offers (he : w.Entry role d) {target s : Data}
    (htarget : Pointer.deref document d = .ok target) (hs : role.Offers target s) :
    Schema.RegularThroughout s :=
  hr.schemas s (.offered hw he htarget hs)

/-- The parameters of a slot are read. -/
theorem slotParameters_gives (hdoc : document.TextKeyed) {own : Data}
    (hown : w.operation.field "parameters" = .ok own)
    (hsharedFit : Fits (fields v) (.optional (.list (orRef .parameter))) w.shared)
    (hownFit : Fits (fields v) (.optional (.list (orRef .parameter))) own)
    (hsharedKeys : w.shared.TextKeyed) (hownKeys : own.TextKeyed) :
    Gives (parseParameters document w.shared own) fun ps => ∀ p ∈ ps, p.schema.JsonValued := by
  obtain ⟨ss, hss, hssAll⟩ := elements_of_fits hsharedFit hsharedKeys
  obtain ⟨os, hos, hosAll⟩ := elements_of_fits hownFit hownKeys
  refine parseParameters_gives hss hos fun d hd => ?_
  obtain ⟨he, hfit, hkeys⟩ :
      w.Entry .parameter d ∧ Fits (fields v) (orRef .parameter) d ∧ d.TextKeyed := by
    rcases List.mem_append.mp hd with hd | hd
    · exact ⟨.shared hss hd, hssAll d hd⟩
    · exact ⟨.own hown hos hd, hosAll d hd⟩
  exact rawParameter_gives (hr.leads hw he hfit) hdoc hkeys
    fun _ _ htarget => hr.offers hw he htarget

/-- The body of a slot is found and read, if there is one. -/
theorem slotBody_gives (hdoc : document.TextKeyed) {body : Data}
    (hbody : w.operation.field "requestBody" = .ok body)
    (hfit : Fits (fields v) (.optional (orRef .requestBody)) body) (hkeys : body.TextKeyed) :
    Gives (Pointer.deref document body) fun target => Gives (parseBody target) fun read =>
      ∀ b, read = some b → ∀ e ∈ b.content, e.2.JsonValued := by
  have hlead : Leads v document .body body := by
    rcases hfit.optional with rfl | hfit
    -- a missing body stands for itself and is not read
    · exact ⟨.null, rfl, .inl rfl⟩
    · exact hr.leads hw (.body hbody) hfit
  obtain ⟨target, htarget, h⟩ := hlead
  exact ⟨target, htarget, parseBody_gives h (textKeyed_deref hdoc hkeys htarget)
    fun s => hr.offers hw (.body hbody) htarget⟩

end

/-- **The operation of a slot is read.** -/
theorem operation_gives (hr : Readable v document) (hdoc : document.TextKeyed)
    (hroot : document.orEmpty = document) (hw : w ∈ Slot.ofDocument document)
    (hfit : Fits (fields v) (.record .operation) w.operation) (hkeys : w.operation.TextKeyed)
    (hsharedFit : Fits (fields v) (.optional (.list (orRef .parameter))) w.shared)
    (hsharedKeys : w.shared.TextKeyed) :
    Gives (Operation.parse w.path w.method w.operation document w.shared) Operation.Sound := by
  obtain ⟨es, heq, -⟩ := hfit.record
  rw [heq] at hfit hkeys
  have hfield : ∀ name, w.operation.field name = .ok ((Data.lookup name es).getD .null) := by
    rw [heq]
    exact fun _ => rfl
  have hin : ∀ f ∈ [may "tags" (.list .text), may "summary" .text, may "description" .text,
      may "operationId" .text, may "parameters" (.list (orRef .parameter)),
      may "requestBody" (orRef .requestBody)], f ∈ fields v .operation := by
    cases v <;> simp [fields, fields30, fields31]
  obtain ⟨tags, htags, htagTexts⟩ :
      ∃ ds, ((Data.lookup "tags" es).getD .null).elementsOrNone = .ok ds ∧
        ∀ x ∈ ds, Fits (fields v) .text x :=
    (hfit.fieldOf (hin (may "tags" (.list .text)) (by simp)) rfl).optionalElements
  obtain ⟨listed, hlisted, hlistedFit⟩ := responses_of_fits hfit
  rw [Operation.parse]
  simp only [hroot, hfield, ok_bind, hlisted, htags]
  -- the steps in their order: responses are followed before the parameters and
  -- the body are read, but read after them
  refine (derefResponses_gives fun e he =>
    hr.leads hw (.response (hfield _) hlisted he) (hlistedFit e he)).bind fun targets htargets => ?_
  refine (slotParameters_gives hr hw hdoc (hfield _) hsharedFit
    (hfit.fieldOf (hin (may "parameters" (.list (orRef .parameter))) (by simp)) rfl) hsharedKeys
    hkeys.getD_lookup).bind fun parameters hparameters => ?_
  refine (slotBody_gives hr hw hdoc (hfield _)
    (hfit.fieldOf (hin (may "requestBody" (orRef .requestBody)) (by simp)) rfl)
    hkeys.getD_lookup).bind fun target hread => ?_
  refine hread.bind fun body hbody => ?_
  refine (parseResponses_gives hdoc (hkeys.getD_lookup.of_entries hlisted) htargets
    (fun e he _ _ htarget => hr.offers hw (.response (hfield _) hlisted he) htarget)
    (hr.statuses w hw _ _ (hfield _) hlisted)).bind fun responses hsound => ?_
  have htext : ∀ name, may name .text ∈ fields v .operation →
      ((Data.lookup name es).getD .null).TextOrNull := fun _ hname =>
    Schema.textOrNull_of_fits (hfit.fieldOf hname rfl)
  have hid : (if ((Data.lookup "operationId" es).getD .null).truthy = true then
      (Data.lookup "operationId" es).getD .null
      else .str (Naming.synthesizedId w.method w.path)).textFaults "operation_id" = [] := by
    split
    · rename_i htruthy
      rcases htext "operationId" (hin _ (by simp)) with hnull | ⟨t, ht⟩
      · rw [hnull] at htruthy
        cases htruthy
      · rw [Data.textFaults, ht]
    · rfl
  rw [hid, Schema.optionalTextFaults_eq_nil (htext "summary" (hin _ (by simp))),
    Schema.optionalTextFaults_eq_nil (htext "description" (hin _ (by simp))),
    Schema.textListFaults_eq_nil fun d hd => (htagTexts d hd).text]
  exact .pure ⟨hparameters, hbody, hsound⟩

/-- The operations of a path are read. -/
theorem parsePath_gives (hr : Readable v document) (hdoc : document.TextKeyed)
    (hroot : document.orEmpty = document) (hpath : (.str path, d) ∈ document.pathItems)
    (hfit : Fits (fields v) (.record .pathItem) d) (hkeys : d.TextKeyed) :
    Gives (Spec.parsePath document (.str path) d) fun os => ∀ o ∈ os, o.Sound := by
  obtain ⟨es, rfl, -⟩ := hfit.record
  have hshared : may "parameters" (.list (orRef .parameter)) ∈ fields v .pathItem := by
    cases v <;> simp [fields, fields30, fields31, sharedFields]
  have hoperation : ∀ m ∈ Spec.methods, may m (.record .operation) ∈ fields v .pathItem := by
    cases v <;> simp [Spec.methods, fields, fields30, fields31, sharedFields]
  have hmethod : ∀ m ∈ Spec.methods, Gives (Spec.parseMethod document path (.map es)
      ((Data.lookup "parameters" es).getD .null) m) fun found => ∀ o, found = some o → o.Sound := by
    intro m hm
    rw [Spec.parseMethod, Data.field_map, ok_bind]
    cases hlookup : Data.lookup m es with
    | none => exact .pure (by simp)
    | some operation =>
      rcases (hfit.field (hoperation m hm) hlookup).optional with rfl | hrecord
      · exact .pure (by simp)
      · obtain ⟨fs, rfl, -⟩ := hrecord.record
        have hw : ⟨path, m, .map fs, (Data.lookup "parameters" es).getD .null⟩ ∈
            Slot.ofDocument document := Slot.mem_ofDocument hpath hm hlookup rfl
        refine (operation_gives hr hdoc hroot hw hrecord (hkeys.of_lookup hlookup)
          (hfit.fieldOf hshared rfl) hkeys.getD_lookup).map fun o ho => ?_
        rintro _ ⟨⟩
        exact ho
  rw [Spec.parsePath]
  split
  · simp only [Data.field_map, ok_bind, Data.text]
    refine (Gives.mapM_forall hmethod).bind fun found hfound => .pure fun o ho => ?_
    obtain ⟨_, hmem, rfl⟩ := List.mem_filterMap.mp ho
    exact hfound _ hmem o rfl
  · exact .pure (by simp)

/-! ## What a document says about itself -/

/-- A text has a plain text. -/
theorem plainText_of_fieldText {t : String} (h : d.fieldText = .ok t) :
    ∃ text, d.plainText = .ok text := by
  rw [Data.fieldText.eq_def] at h
  split at h
  · exact ⟨_, rfl⟩
  · exact ⟨_, rfl⟩
  · cases h

/-- What a document says about itself is read. -/
theorem parseInfo_gives (hfit : Fits (fields v) (.record .info) d) :
    ∃ info, Spec.parseInfo d = .ok info := by
  obtain ⟨es, rfl, -⟩ := hfit.record
  have htitled : need "title" .text ∈ fields v .info := by
    cases v <;> simp [fields, fields30, fields31]
  have hdescribed : may "description" .text ∈ fields v .info := by
    cases v <;> simp [fields, fields30, fields31]
  have hversioned : need "version" .text ∈ fields v .info := by
    cases v <;> simp [fields, fields30, fields31]
  obtain ⟨title, htitle, hfitTitle⟩ :
      ∃ t, Data.lookup "title" es = some t ∧ Fits _ .text t := hfit.needed htitled rfl rfl
  obtain ⟨version, hversion, hfitVersion⟩ :
      ∃ t, Data.lookup "version" es = some t ∧ Fits _ .text t := hfit.needed hversioned rfl rfl
  obtain ⟨t, ht⟩ := hfitTitle.text
  obtain ⟨text, htext⟩ := plainText_of_fieldText hfitVersion.text.choose_spec
  have hdescription : (Schema.fieldOf "description" es).TextOrNull :=
    Schema.textOrNull_of_fits (hfit.fieldOf hdescribed rfl)
  refine ⟨⟨t, text, (Schema.fieldOf "description" es).fieldText?⟩, ?_⟩
  simp only [Spec.parseInfo, Data.entries, ok_bind, htitle, hversion, htext, Option.getD_some,
    Data.textFaults, Data.fieldText?, ht, Schema.optionalTextFaults_eq_nil hdescription]
  rfl

/-- A server is read. -/
theorem parseServer_gives (hfit : Fits (fields v) (.record .server) d) :
    ∃ server, Spec.parseServer d = .ok server := by
  obtain ⟨es, rfl, -⟩ := hfit.record
  have hplaced : need "url" .text ∈ fields v .server := by
    cases v <;> simp [fields, fields30, fields31, sharedFields]
  have hdescribed : may "description" .text ∈ fields v .server := by
    cases v <;> simp [fields, fields30, fields31, sharedFields]
  obtain ⟨url, hurl, hfitUrl⟩ : ∃ t, Data.lookup "url" es = some t ∧ Fits _ .text t :=
    hfit.needed hplaced rfl rfl
  obtain ⟨t, ht⟩ := hfitUrl.text
  have hdescription : (Schema.fieldOf "description" es).TextOrNull :=
    Schema.textOrNull_of_fits (hfit.fieldOf hdescribed rfl)
  refine ⟨⟨t, (Schema.fieldOf "description" es).fieldText?⟩, ?_⟩
  simp only [Spec.parseServer, Data.entries, ok_bind, hurl, Option.getD_some, Data.textFaults,
    Data.fieldText?, ht, Schema.optionalTextFaults_eq_nil hdescription]
  rfl

/-! ## Specifications -/

/-- Nothing in the specification is in the way of a blueprint. -/
structure Spec.Sound (s : Spec) : Prop where
  schemas : ∀ e ∈ s.schemas, e.2.Usable
  operations : ∀ o ∈ s.operations, o.Sound

/-- **An accepted document that is readable is read**, and a blueprint can be
made of the specification. -/
theorem parse_gives (hr : Readable v document) (hkeys : document.TextKeyed)
    (hfit : Fits (fields v) (.record .openApi) document) :
    Gives (Spec.parse document) Spec.Sound := by
  obtain ⟨es, rfl, -⟩ := hfit.record
  have hroot : (Data.map es).orEmpty = .map es := Data.orEmpty_map
  have hlistedIn : plain "servers" (.list (.record .server)) ∈ fields v .openApi := by
    cases v <;> simp [fields, fields30, fields31]
  have hinformed : need "info" (.record .info) ∈ fields v .openApi := by
    cases v <;> simp [fields, fields30, fields31]
  obtain ⟨items, hitems, hitemsFit⟩ := paths_of_fits hfit
  have hitemsKeys := hkeys.getD_lookup.of_entries hitems
  obtain ⟨info, hinfo, hinfoFit⟩ : ∃ d, Data.lookup "info" es = some d ∧
      Fits (fields v) (.record .info) d := hfit.needed hinformed rfl rfl
  obtain ⟨about, habout⟩ := parseInfo_gives hinfoFit
  obtain ⟨is, rfl, -⟩ := hinfoFit.record
  obtain ⟨schemas, ds, hschemas, hds, hdsKeys, hdsFit⟩ := definitions_of_fits hfit hkeys
  obtain ⟨listed, hlisted, hservers⟩ :
      ∃ ss, ((Data.lookup "servers" es).getD .null).elementsOrNone = .ok ss ∧
        ∀ d ∈ ss, Fits (fields v) (.record .server) d :=
    (hfit.orMissing hlistedIn).optionalElements
  obtain ⟨servers, hserved⟩ := mapM_isOk fun d hd => parseServer_gives (hservers d hd)
  have hoperations : Gives (items.mapM fun e => Spec.parsePath (.map es) e.1 e.2) fun oss =>
      ∀ os ∈ oss, ∀ o ∈ os, o.Sound := by
    refine Gives.mapM_forall fun e he => ?_
    obtain ⟨k, item⟩ := e
    obtain ⟨path, rfl⟩ := hitemsKeys.key he
    have hpath : (.str path, item) ∈ (Data.map es).pathItems := by
      rw [Slot.pathItems_eq Data.field_map hitems]
      exact he
    exact parsePath_gives hr hkeys hroot hpath (hitemsFit _ he) (hitemsKeys.value he)
  have hdefinitions : Gives (Schema.parseEntries ds) fun read =>
      read.map Prod.fst = ds.map Prod.fst ∧ ∀ e ∈ read, e.2.Usable :=
    Schema.parseEntries_gives fun e he => Schema.parse_gives (hdsKeys.value he) (hdsFit e he)
      (hr.schemas e.2 (.definition Data.field_map hschemas hds he))
  rw [Spec.parse]
  simp only [Data.field_map, ok_bind, hitems, hschemas, hds, hinfo, Option.getD_some,
    Data.orEmpty_map, habout, hlisted, hserved]
  refine hoperations.bind fun oss hoss => hdefinitions.bind fun read hread => ?_
  have hfaults : Data.keyFaults "schemas" (read.map Prod.fst) = [] := by
    refine Schema.keyFaults_eq_nil fun k hk => ?_
    rw [hread.1] at hk
    obtain ⟨e, he, rfl⟩ := List.mem_map.mp hk
    exact hdsKeys.key he
  rw [hfaults]
  refine .pure ⟨fun e he => ?_, fun o ho => ?_⟩
  · obtain ⟨k, hk⟩ := Schema.exists_of_mem_textKeyed he
    exact hread.2 _ hk
  · obtain ⟨os, hos, ho⟩ := List.mem_flatten.mp ho
    exact hoss os hos o ho

end ApiMock
