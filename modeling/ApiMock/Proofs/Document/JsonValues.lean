import ApiMock.Proofs.Document.Parameters
import ApiMock.Proofs.Schema.Reads
/-!
# Document — what a JSON document enumerates

A node is JSON-valued if every value it enumerates anywhere is a JSON
value. Nodes read from a JSON value are, and so is every node of a
specification that is read from a JSON document: its definitions and the
schemas of its operations, those found by following references included.
-/

namespace ApiMock

open Sequence

/-- Every value that the node enumerates is a JSON value. -/
def Schema.JsonValued (s : Schema) : Prop := ∀ v, s.Enumerates v → v.IsJson

/-! ## Nodes -/

namespace Schema

/-- A property of a JSON-valued object is JSON-valued. -/
theorem JsonValued.of_mem_properties {declared format : Option String}
    {description : Option Data} {properties : List (String × Schema)} {required : List String}
    (h : (object declared format description properties required).JsonValued)
    {e : String × Schema} (he : e ∈ properties) : e.2.JsonValued :=
  fun v hv => h v (has_object.mpr (.inr ⟨e, he, hv⟩))

/-- Entries under texts are entries. -/
theorem exists_of_mem_textKeyed {α : Type} {es : List (Scalar × α)} {e : String × α}
    (h : e ∈ Data.textKeyed es) : ∃ k, (k, e.2) ∈ es := by
  obtain ⟨f, hf, h⟩ := List.mem_filterMap.mp h
  obtain ⟨name, -, rfl⟩ := Option.map_eq_some_iff.mp h
  exact ⟨f.1, hf⟩

/-- A merged node enumerates nothing but what its members enumerate. -/
theorem exists_enumerates_of_mergeMembers {nodes : List Schema} {v : Data}
    (h : (mergeMembers nodes).Enumerates v) : ∃ n ∈ nodes, n.Enumerates v := by
  rw [mergeMembers_eq] at h
  split at h
  · simp only [has_object, reduceCtorEq, false_and, exists_false, false_or] at h
    obtain ⟨e, he, hv⟩ := h
    obtain ⟨n, hn, hproperty⟩ := exists_of_mem_merged he
    refine ⟨n, hn, ?_⟩
    cases n with
    | object t _ d ps rs => exact has_object.mpr (.inr ⟨e, hproperty, hv⟩)
    | _ => simp [properties] at hproperty
  · simp at h

/-- Handing a description down leaves the values as they are. -/
theorem enumerates_inheritDescription {es : List (Scalar × Data)} {s : Schema} {v : Data} :
    (inheritDescription es s).Enumerates v ↔ s.Enumerates v := by
  simp only [inheritDescription]
  split
  · exact enumerates_withDescription
  · exact Iff.rfl

/-- **A node that is read from a JSON value is JSON-valued.** -/
theorem Reads.jsonValued {d : Data} {s : Schema} (h : Reads d s) (hd : d.IsJson) :
    s.JsonValued := by
  intro v hv
  induction h with
  | member ha hm _ ih =>
    exact ih ((hd.of_lookup ha).of_holds hm) (enumerates_inheritDescription.mp hv)
  | merged ha hm _ ih =>
    obtain ⟨n, hn, hv⟩ := exists_enumerates_of_mergeMembers (enumerates_inheritDescription.mp hv)
    obtain ⟨e, he, rfl⟩ := List.mem_map.mp hn
    exact ih e he ((hd.of_lookup ha).of_holds (hm e he)) hv
  | undecided ha => simp [enumerates_inheritDescription] at hv
  | enumeration he hl => exact (hd.of_lookup he).elementsOrNone hl v (by simpa using hv)
  | array hi _ ih => exact ih (hd.of_lookup hi) (by simpa using hv)
  | object hp hm _ _ ih =>
    simp only [has_object, reduceCtorEq, false_and, exists_false, false_or] at hv
    obtain ⟨e, he, hv⟩ := hv
    obtain ⟨k, hk⟩ := exists_of_mem_textKeyed he
    obtain ⟨f, hf, hfe⟩ := List.mem_map.mp hk
    rw [← (Prod.mk.inj hfe).2] at hv
    exact ih f hf ((hd.of_lookup hp).of_holds ⟨_, hm f hf, rfl⟩) hv
  | _ => simp at hv

/-- **What `parse` reads from a JSON value is JSON-valued.** -/
theorem jsonValued_of_parse {d : Data} {s : Schema} (h : parse d = .ok s) (hd : d.IsJson) :
    s.JsonValued :=
  (reads_of_parse h).jsonValued hd

end Schema

/-! ## Operations -/

/-- Every schema of the operation is JSON-valued. -/
structure Operation.JsonValued (o : Operation) : Prop where
  parameters : ∀ p ∈ o.parameters, p.schema.JsonValued
  body : ∀ b, o.body = some b → ∀ e ∈ b.content, e.2.JsonValued
  responses : ∀ r ∈ o.responses, ∀ e ∈ r.content, e.2.JsonValued

/-- What is found by following references: the value itself, a part of the
document that names lead to, or null. -/
theorem Pointer.deref_induct {P : Data → Prop} {document d found : Data} (hnull : P .null)
    (hfield : ∀ d name e, P d → d.field? name = some e → P e) (hdoc : P document) (hd : P d)
    (h : Pointer.deref document d = .ok found) : P found := by
  have hwalk : ∀ (keys : List String) (d : Data), P d → P (Pointer.walk d keys) := by
    intro keys
    induction keys with
    | nil => exact fun d hd => hd
    | cons key rest ih =>
      intro d hd
      rw [Pointer.walk]
      split
      · rename_i next hnext
        exact ih next (hfield d key next hd hnext)
      · exact hnull
  have hsteps : ∀ (steps : Nat) (d : Data), P d →
      Pointer.derefWithin document steps d = .ok found → P found := by
    intro steps
    induction steps with
    | zero =>
      intro d hd h
      cases h
      exact hd
    | succ steps ih =>
      intro d hd h
      rw [Pointer.derefWithin] at h
      split at h
      · cases h
        exact hd
      · obtain ⟨next, hnext, h⟩ := of_bind_ok h
        obtain ⟨text, -, hnext⟩ := of_bind_ok hnext
        cases hnext
        exact ih _ (hwalk _ document hdoc) h
  exact hsteps 16 d hd h

/-- What a reference in a JSON document stands for is a JSON value. -/
theorem Data.IsJson.deref {document d found : Data} (hdoc : document.IsJson) (hd : d.IsJson)
    (h : Pointer.deref document d = .ok found) : found.IsJson := by
  refine Pointer.deref_induct .null (fun d name e hd he => ?_) hdoc hd h
  cases d with
  | map es => exact hd.of_lookup he
  | _ => cases he

/-- The entries of a JSON value are those of a JSON object. -/
theorem Data.IsJson.entries {d : Data} {es : List (Scalar × Data)} (hd : d.IsJson)
    (h : d.entries = .ok es) : (Data.map es).IsJson := by
  cases d with
  | map es' =>
    cases h
    exact hd
  | _ => cases h

/-- The content that is read from a JSON value is JSON-valued. -/
theorem jsonValued_of_parseContent {content : Data} {read : List (Scalar × Schema)}
    (hc : content.IsJson) (h : parseContent content = .ok read) : ∀ e ∈ read, e.2.JsonValued := by
  intro e he
  obtain ⟨es, hes, h⟩ := of_bind_ok h
  obtain ⟨f, hf, h⟩ := exists_of_mem_mapM h e he
  obtain ⟨d, hd, h⟩ := of_bind_ok h
  obtain ⟨s, hs, h⟩ := of_bind_ok h
  cases h
  have hvalue : f.2.IsJson := (hc.orEmpty.entries hes).of_holds ⟨f, hf, rfl⟩
  exact Schema.jsonValued_of_parse hs (hvalue.orEmpty.field hd)

/-- The same under keys that are texts. -/
theorem jsonValued_of_mem_textKeyed {read : List (Scalar × Schema)}
    (h : ∀ e ∈ read, e.2.JsonValued) : ∀ e ∈ Data.textKeyed read, e.2.JsonValued := by
  intro e he
  obtain ⟨k, hk⟩ := Schema.exists_of_mem_textKeyed he
  exact h _ hk

/-- The body that is read from a JSON value is JSON-valued. -/
theorem jsonValued_of_parseBody {body : Data} {b : RequestBody} (hb : body.IsJson)
    (h : parseBody body = .ok (some b)) : ∀ e ∈ b.content, e.2.JsonValued := by
  rw [parseBody] at h
  split at h
  · obtain ⟨_, -, h⟩ := of_bind_ok h
    obtain ⟨content, hcontent, h⟩ := of_bind_ok h
    obtain ⟨read, hread, h⟩ := of_bind_ok h
    obtain ⟨_, -, h⟩ := of_bind_ok h
    cases h
    exact jsonValued_of_mem_textKeyed (jsonValued_of_parseContent (hb.field hcontent) hread)
  · cases h

/-- The response that is read from a JSON value is JSON-valued. -/
theorem jsonValued_of_parseResponse {status : Scalar} {response : Data} {r : Response}
    (hr : response.IsJson) (h : parseResponse status response = .ok r) :
    ∀ e ∈ r.content, e.2.JsonValued := by
  obtain ⟨_, -, h⟩ := of_bind_ok h
  obtain ⟨content, hcontent, h⟩ := of_bind_ok h
  obtain ⟨read, hread, h⟩ := of_bind_ok h
  obtain ⟨_, -, h⟩ := of_bind_ok h
  cases h
  exact jsonValued_of_mem_textKeyed (jsonValued_of_parseContent (hr.orEmpty.field hcontent) hread)

/-- The fields of a parameter that an entry stands for are those of a
JSON object. -/
theorem Data.IsJson.rawParameter {document entry : Data} {p : RawParameter}
    (hdoc : document.IsJson) (he : entry.IsJson)
    (h : ApiMock.rawParameter document entry = .ok (some p)) : (Data.map p.fields).IsJson :=
  hdoc.deref he (rawParameter_eq_some_iff.mp h).1

/-- A parameter in a JSON document has nothing in bytes. -/
theorem Data.IsJson.not_inBytes {document entry : Data} {p : RawParameter}
    (hdoc : document.IsJson) (he : entry.IsJson)
    (h : ApiMock.rawParameter document entry = .ok (some p)) : ¬ p.InBytes := by
  have hfields := hdoc.rawParameter he h
  obtain ⟨-, hname, hplace⟩ := rawParameter_eq_some_iff.mp h
  have hnameJson : p.name.IsJson := hfields.of_lookup hname
  have hplaceJson : p.location.IsJson := hplace ▸ hfields.getD_lookup (.str "query")
  rintro ⟨b, hb | hb⟩
  · rw [hb] at hnameJson
    cases hnameJson
  · rw [hb] at hplaceJson
    cases hplaceJson

/-- So the parameters of an operation in one are told apart by name and place. -/
theorem Operation.apart_of_isJson {path method : String} {operation document shared : Data}
    {o : Operation} (hop : operation.IsJson) (hdoc : document.IsJson) (hs : shared.IsJson)
    (h : Operation.parse path method operation document shared = .ok o) : o.Apart := by
  rcases Operation.apart_or h with hapart | ⟨d, p, hlists, hraw, hbytes⟩
  · exact hapart
  · have hd : d.IsJson := by
      cases hlists with
      | shared hss hd => exact hs.elementsOrNone hss d hd
      | own ho hos hd => exact (hop.field ho).elementsOrNone hos d hd
    exact absurd hbytes (hdoc.orEmpty.not_inBytes hd hraw)

/-- **The parameters that are read from a JSON document are JSON-valued.** -/
theorem jsonValued_of_parseParameters {document shared own : Data} {ps : List Parameter}
    (hdoc : document.IsJson) (hs : shared.IsJson) (ho : own.IsJson)
    (h : parseParameters document shared own = .ok ps) : ∀ p ∈ ps, p.schema.JsonValued := by
  intro p hp
  obtain ⟨ss, hss, h⟩ := of_bind_ok h
  obtain ⟨os, hos, h⟩ := of_bind_ok h
  obtain ⟨merged, hmerged, h⟩ := of_bind_ok h
  obtain ⟨e, he, h⟩ := exists_of_mem_mapM h p hp
  have hentries : ∀ d ∈ ss ++ os, d.IsJson := by
    intro d hd
    rcases List.mem_append.mp hd with hd | hd
    · exact hs.elementsOrNone hss d hd
    · exact ho.elementsOrNone hos d hd
  obtain ⟨entry, hentry, hraw⟩ := (merged_of_foldlM hmerged).origin e he
  have hfields := hdoc.rawParameter (hentries entry hentry) hraw
  obtain ⟨s, hs, h⟩ := of_bind_ok h
  obtain ⟨_, -, h⟩ := of_bind_ok h
  cases h
  exact Schema.jsonValued_of_parse hs (hfields.getD_lookup .null)

/-- **An operation that is read from a JSON document is JSON-valued.** -/
theorem jsonValued_of_parseOperation {path method : String} {operation document shared : Data}
    {o : Operation} (hop : operation.IsJson) (hdoc : document.IsJson) (hs : shared.IsJson)
    (h : Operation.parse path method operation document shared = .ok o) : o.JsonValued := by
  have hroot := hdoc.orEmpty
  have hread := Operation.readFrom_of_parse h
  constructor
  · obtain ⟨own, hown, hparameters⟩ := hread.parameters
    exact jsonValued_of_parseParameters hroot hs (hop.field hown) hparameters
  · obtain ⟨entry, target, hentry, htarget, hbody⟩ := hread.body
    intro b hb
    rw [hb] at hbody
    exact jsonValued_of_parseBody (hroot.deref (hop.field hentry) htarget) hbody
  · obtain ⟨listed, es, targets, hlisted, hes, htargets, hresponses⟩ := hread.responses
    intro r hr
    obtain ⟨e, he, h⟩ := exists_of_mem_mapM hresponses r hr
    obtain ⟨f, hf, h'⟩ := exists_of_mem_mapM htargets e he
    obtain ⟨value, hvalue, h'⟩ := of_bind_ok h'
    cases h'
    have hjson : f.2.IsJson := ((hop.field hlisted).orEmpty.entries hes).of_holds ⟨f, hf, rfl⟩
    exact jsonValued_of_parseResponse (hroot.deref hjson hvalue) h

/-! ## Specifications -/

/-- Every schema of the specification is JSON-valued. -/
structure Spec.JsonValued (s : Spec) : Prop where
  schemas : ∀ e ∈ s.schemas, e.2.JsonValued
  operations : ∀ o ∈ s.operations, o.JsonValued

/-- The operations of a path of a JSON document are JSON-valued. -/
theorem jsonValued_of_parsePath {document item : Data} {path : Scalar} {os : List Operation}
    (hdoc : document.IsJson) (hi : item.IsJson) (h : Spec.parsePath document path item = .ok os) :
    ∀ o ∈ os, o.JsonValued := by
  intro o ho
  rw [Spec.parsePath] at h
  split at h
  · obtain ⟨shared, hshared, h⟩ := of_bind_ok h
    obtain ⟨_, -, h⟩ := of_bind_ok h
    obtain ⟨found, hfound, h⟩ := of_bind_ok h
    cases h
    obtain ⟨_, hsome, rfl⟩ := List.mem_filterMap.mp ho
    obtain ⟨method, -, h⟩ := exists_of_mem_mapM hfound _ hsome
    obtain ⟨operation, hop, h⟩ := of_bind_ok h
    split at h
    · cases h
    · obtain ⟨_, h, ho⟩ := of_map_ok h
      cases ho
      exact jsonValued_of_parseOperation (hi.field hop) hdoc (hi.field hshared) h
  · cases h
    simp at ho

/-- **A specification that is read from a JSON document is JSON-valued.** -/
theorem Spec.jsonValued_of_parse {document : Data} {s : Spec} (hdoc : document.IsJson)
    (h : Spec.parse document = .ok s) : s.JsonValued := by
  have hread := Spec.readFrom_of_parse h
  constructor
  · obtain ⟨components, listed, es, read, hcomponents, hlisted, hes, hschemas, heq⟩ := hread.schemas
    have hdefs : (Data.map es).IsJson :=
      ((hdoc.field hcomponents).orEmpty.field hlisted).orEmpty.entries hes
    obtain ⟨parts, rfl, hparts⟩ := Schema.reads_of_parseEntries hschemas
    rw [heq]
    refine jsonValued_of_mem_textKeyed fun e he => ?_
    obtain ⟨f, hf, rfl⟩ := List.mem_map.mp he
    exact (hparts f hf).2.jsonValued (hdefs.of_holds ⟨_, (hparts f hf).1, rfl⟩)
  · obtain ⟨paths, es, found, hpaths, hes, hfound, heq⟩ := hread.operations
    have hitems : (Data.map es).IsJson := (hdoc.field hpaths).orEmpty.entries hes
    intro o ho
    rw [heq] at ho
    obtain ⟨os, hos, ho⟩ := List.mem_flatten.mp ho
    obtain ⟨e, he, h⟩ := exists_of_mem_mapM hfound os hos
    exact jsonValued_of_parsePath hdoc (hitems.of_holds ⟨e, he, rfl⟩) h o ho

end ApiMock
