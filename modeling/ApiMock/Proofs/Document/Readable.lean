import ApiMock.Proofs.Document.Operations
import ApiMock.Proofs.Schema.Regular
/-!
# Document — accepted documents that can be read

Acceptance does not follow references. `Readable` says what reading asks of
a document besides that it is accepted: what an entry of an operation leads
to is what it should be, all schemas that are read are regular, and status
codes of digits write numbers. With this every part of an accepted document
is read.
-/

namespace ApiMock

open Entries OpenApi Sequence

/-! ## What is read -/

/-- What stands in an operation and may be a reference. -/
inductive Role where
  | parameter
  | body
  | response
  deriving DecidableEq

namespace Role

/-- The record that is expected. -/
def model : Role → Model
  | parameter => .parameter
  | body => .requestBody
  | response => .response

/-- The section of the components where such records are shared. -/
def components : Role → String
  | parameter => "parameters"
  | body => "requestBodies"
  | response => "responses"

/-- What may stand there without being read. -/
def Ignores : Role → Data → Prop
  | parameter, d => ∀ es, d = .map es → Data.lookup "name" es = none
  | _, d => d.truthy = false

/-- The schemas that are read of what stands there. -/
inductive Offers : Role → Data → Data → Prop where
  | schema {es : List (Scalar × Data)} {d : Data} (hs : Data.lookup "schema" es = some d) :
      Offers parameter (.map es) d
  | content {role : Role} {es media fields : List (Scalar × Data)} {k : Scalar} {d : Data}
      (hrole : role ≠ parameter) (hc : Data.lookup "content" es = some (.map media))
      (hm : (k, .map fields) ∈ media) (hs : Data.lookup "schema" fields = some d) :
      Offers role (.map es) d

end Role

/-- The entries of an operation that may be references. -/
inductive Slot.Entry (w : Slot) : Role → Data → Prop where
  | shared {ds : List Data} {d : Data} (hs : w.shared.elementsOrNone = .ok ds) (hd : d ∈ ds) :
      Entry w .parameter d
  | own {listed d : Data} {ds : List Data} (ho : w.operation.field "parameters" = .ok listed)
      (hs : listed.elementsOrNone = .ok ds) (hd : d ∈ ds) : Entry w .parameter d
  | body {d : Data} (hb : w.operation.field "requestBody" = .ok d) : Entry w .body d
  | response {listed : Data} {es : List (Scalar × Data)} {e : Scalar × Data}
      (hr : w.operation.field "responses" = .ok listed) (hes : listed.orEmpty.entries = .ok es)
      (he : e ∈ es) : Entry w .response e.2

/-- The schemas that are read for themselves: the definitions, and those of
what the entries of the operations lead to. -/
inductive ReadSchema (document : Data) : Data → Prop where
  | definition {components schemas : Data} {es : List (Scalar × Data)} {e : Scalar × Data}
      (hc : document.field "components" = .ok components)
      (hs : components.orEmpty.field "schemas" = .ok schemas)
      (hes : schemas.orEmpty.entries = .ok es) (he : e ∈ es) : ReadSchema document e.2
  | offered {w : Slot} {role : Role} {entry target d : Data} (hw : w ∈ Slot.ofDocument document)
      (he : w.Entry role entry) (ht : Pointer.deref document entry = .ok target)
      (hd : role.Offers target d) : ReadSchema document d

/-- An entry leads to the record that is expected, or to nothing that is
read. -/
def Leads (v : Version) (document : Data) (role : Role) (entry : Data) : Prop :=
  Gives (Pointer.deref document entry) fun target =>
    role.Ignores target ∨ Fits (fields v) (.record role.model) target

/-- A status code that counts as one of success or of an error writes a
number if it has only digits. -/
def WritesStatus (code : List Char) : Prop :=
  code.head? = some '2' ∨ code.head? = some '4' → code.all Text.isDigitLike = true →
    ∃ n, statusNumber code = .ok n

/-- What reading a document asks besides that it is accepted. -/
structure Readable (v : Version) (document : Data) : Prop where
  references : ∀ w ∈ Slot.ofDocument document, ∀ role entry, w.Entry role entry →
    (entry.field? "$ref").isSome ∨ (entry.field? "ref").isSome → Leads v document role entry
  schemas : ∀ d, ReadSchema document d → Schema.RegularThroughout d
  statuses : ∀ w ∈ Slot.ofDocument document, ∀ listed es,
    w.operation.field "responses" = .ok listed → listed.orEmpty.entries = .ok es →
      ∀ e ∈ es, WritesStatus e.1.shown.toList

variable {v : Version} {document d : Data} {es : List (Scalar × Data)} {role : Role}

/-! ## Entries -/

/-- **Without a pointer an entry stands for itself.** -/
theorem leads_of_fits (hfit : Fits (fields v) (orRef role.model) d)
    (hlead : (d.field? "$ref").isSome ∨ (d.field? "ref").isSome → Leads v document role d) :
    Leads v document role d := by
  by_cases hp : (d.field? "$ref").isSome ∨ (d.field? "ref").isSome
  · exact hlead hp
  · simp only [not_or, Option.not_isSome_iff_eq_none] at hp
    have hself : Pointer.deref document d = .ok d := by
      rw [Pointer.deref, Pointer.derefWithin, hp.1]
    refine ⟨d, hself, .inr ?_⟩
    obtain ⟨shape, hshape, h⟩ := hfit.either
    simp only [List.mem_cons, List.not_mem_nil, or_false] at hshape
    rcases hshape with rfl | rfl
    · exact h
    · obtain ⟨es, rfl, -⟩ := h.record
      exact absurd h (Schema.not_fits_reference (by simpa [Schema.Lacks, Data.field?] using hp))

/-- **A reference to a component of its kind leads to what it should**, if the
document is accepted and the component is no reference. -/
theorem leads_of_component {components : Data} {e : Scalar × Data}
    (hfit : Fits (fields v) (.record .openApi) document)
    (hc : document.field? "components" = some components)
    (hs : components.field? role.components = some (.map es)) (he : e ∈ es)
    (hlacks : ∀ fs, e.2 = .map fs → Schema.Lacks ["$ref", "ref"] fs)
    (h : Pointer.deref document d = .ok e.2) : Leads v document role d := by
  refine ⟨e.2, h, .inr ?_⟩
  obtain ⟨ds, rfl, -⟩ := hfit.record
  have hcomponents : may "components" (.record .components) ∈ fields v .openApi := by
    cases v <;> simp [fields, fields30, fields31]
  have hsection : may role.components (.mapping (orRef role.model)) ∈ fields v .components := by
    cases v <;> cases role <;> simp [Role.components, Role.model, fields, fields30, fields31]
  have hrecord : Fits (fields v) (.record .components) components := by
    refine (hfit.field hcomponents hc).optional.resolve_left ?_
    rintro rfl
    cases hs
  obtain ⟨cs, rfl, -⟩ := hrecord.record
  obtain ⟨es', heq, hall⟩ :=
    ((hrecord.field hsection hs).optional.resolve_left Data.noConfusion).mapping
  cases heq
  obtain ⟨shape, hshape, hentry⟩ := (hall e he).either
  simp only [List.mem_cons, List.not_mem_nil, or_false] at hshape
  rcases hshape with rfl | rfl
  · exact hentry
  · obtain ⟨fs, hfs, -⟩ := hentry.record
    exact absurd (hfs ▸ hentry) (Schema.not_fits_reference (hlacks fs hfs))

/-- What a reference stands for has texts for keys. -/
theorem textKeyed_deref {found : Data} (hdoc : document.TextKeyed) (hd : d.TextKeyed)
    (h : Pointer.deref document d = .ok found) : found.TextKeyed := by
  refine Pointer.deref_induct (.scalar .null) (fun d name e hd he => ?_) hdoc hd h
  cases d with
  | map es => exact hd.of_lookup he
  | _ => cases he

/-- The elements of an accepted list fit and have texts for keys. -/
theorem elements_of_fits {fs : Model → List Field} {inner : Shape}
    (hfit : Fits fs (.optional (.list inner)) d) (hkeys : d.TextKeyed) :
    ∃ ds, d.elementsOrNone = .ok ds ∧ ∀ x ∈ ds, Fits fs inner x ∧ x.TextKeyed := by
  obtain ⟨ds, hds, hall⟩ := hfit.optionalElements
  refine ⟨ds, hds, fun x hx => ⟨hall x hx, ?_⟩⟩
  rw [Data.elementsOrNone] at hds
  split at hds
  · rename_i htruthy
    rcases hfit.optional with rfl | hlist
    · cases htruthy
    rcases hlist.list with ⟨items, rfl, -⟩ | ⟨members, rfl, -⟩
    · cases hds
      exact hkeys.item hx
    · cases hds
      obtain ⟨s, -, rfl⟩ := List.mem_map.mp hx
      exact .scalar s
  · cases hds
    cases hx

end ApiMock
