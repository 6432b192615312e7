import ApiMock.Proofs.Data.TextKeys
import ApiMock.Proofs.OpenApi.Fits
import ApiMock.Proofs.Schema.Usable
import Mathlib.Logic.Relation
/-!
# Schema — accepted schemas that can be read

A schema that is accepted is one of two things: a reference, or a record of
which the known fields fit. That is not all that reading asks. `Regular`
says what else it asks of one schema, and `Child` which schemas are read
along with one. If all of them are regular, an accepted schema is read, and
its node is usable (`parse_gives`).
-/

namespace ApiMock

open OpenApi Sequence

/-- A text, or bytes that encode one, or null. -/
def Data.TextOrNull (d : Data) : Prop :=
  d = .null ∨ ∃ s, d.fieldText = .ok s

namespace Schema

/-- None of these names is there. -/
def Lacks (names : List String) (es : List (Scalar × Data)) : Prop :=
  ∀ name ∈ names, Data.lookup name es = none

instance {names : List String} {es : List (Scalar × Data)} : Decidable (Lacks names es) :=
  List.decidableBAll (fun name => Data.lookup name es = none) names

/-- The schemas that are read along with a schema, which are those of the
form that is chosen for it. -/
inductive Child : Data → Data → Prop where
  | member {es : List (Scalar × Data)} {items : List Data} {d : Data} (hform : Lacks ["$ref"] es)
      (ha : Data.lookup "allOf" es = some (.list items)) (hd : d ∈ items) : Child (.map es) d
  | items {es : List (Scalar × Data)} {d : Data}
      (hform : Lacks ["$ref", "allOf", "oneOf", "anyOf", "enum"] es)
      (hi : Data.lookup "items" es = some d) : Child (.map es) d
  | property {es ps : List (Scalar × Data)} {e : Scalar × Data}
      (hform : Lacks ["$ref", "allOf", "oneOf", "anyOf", "enum", "items"] es)
      (hp : Data.lookup "properties" es = some (.map ps)) (he : e ∈ ps) : Child (.map es) e.2

/-- What reading asks of a schema besides that it is accepted. The pointer of
a reference is a text, and a description beside it is one, or null. A schema
that is no reference is not accepted in place of one, under the other name
that the pointer has. Its type is no set, it lists JSON values, and a
description that it may hand down is no byte string. -/
inductive Regular (es : List (Scalar × Data)) : Prop where
  | reference {pointer : String} (hp : Data.lookup "$ref" es = some (.str pointer))
      (hd : (fieldOf "description" es).TextOrNull)
  | inline (hform : Lacks ["$ref", "ref"] es)
      (htype : ∀ members, Data.lookup "type" es ≠ some (.set members))
      (hvalues : ∀ listed values, Data.lookup "enum" es = some listed →
        listed.elementsOrNone = .ok values → ∀ v ∈ values, v.IsJson)
      (hd : (Data.lookup "allOf" es).isSome → ∀ b, fieldOf "description" es ≠ .scalar (.bytes b))

/-- All schemas that are read along with this one are regular. -/
def RegularThroughout (d : Data) : Prop :=
  ∀ es, Relation.ReflTransGen Child d (.map es) → Regular es

variable {es ps : List (Scalar × Data)} {d : Data} {v : Version} {name place : String} {f : Field}

/-! ## Faults -/

/-- What is a text or null has no fault. -/
theorem optionalTextFaults_eq_nil (h : d.TextOrNull) : d.optionalTextFaults place = [] := by
  rcases h with rfl | ⟨s, hs⟩
  · rfl
  · rw [Data.optionalTextFaults.eq_def]
    split
    · rfl
    · rw [Data.textFaults, hs]

theorem textListFaults_eq_nil {ds : List Data} (h : ∀ d ∈ ds, ∃ s, d.fieldText = .ok s) :
    Data.textListFaults place ds = [] := by
  rw [Data.textListFaults, List.flatten_eq_nil_iff]
  intro l hl
  obtain ⟨e, he, rfl⟩ := List.mem_map.mp hl
  obtain ⟨s, hs⟩ := h e.1 (List.of_mem_zip (List.zipIdx_eq_zip_range' ▸ he)).1
  rw [Data.textFaults, hs]

/-- What fits as a text that may be null. -/
theorem textOrNull_of_fits {fs : Model → List Field} (h : Fits fs (.optional .text) d) :
    d.TextOrNull :=
  h.optional.imp id Fits.text

/-- Keys that are texts have no fault. -/
theorem keyFaults_eq_nil {keys : List Scalar} (h : ∀ k ∈ keys, ∃ name, k = .str name) :
    Data.keyFaults place keys = [] := by
  rw [Data.keyFaults, List.flatMap_eq_nil_iff]
  intro k hk
  obtain ⟨name, rfl⟩ := h k hk
  rfl

theorem mem_of_mem_distinctElements {ds : List Data} (h : d ∈ distinctElements ds) : d ∈ ds := by
  induction ds with
  | nil => cases h
  | cons e rest ih =>
    rcases List.mem_cons.mp h with rfl | h
    · exact List.mem_cons_self
    · exact List.mem_cons_of_mem e (ih (List.mem_filter.mp h).1)

/-! ## What a record says of its fields -/

/-- No scalar is accepted as a schema. -/
theorem exists_map_of_fits (h : Fits (fields v) schemaOrRef d) : ∃ es, d = .map es := by
  obtain ⟨shape, hshape, h⟩ := h.either
  simp only [List.mem_cons, List.not_mem_nil, or_false] at hshape
  rcases hshape with rfl | rfl <;> exact h.record.imp fun _ h => h.1

/-- A reference has its pointer under one of two names. -/
theorem not_fits_reference (hform : Lacks ["$ref", "ref"] es) :
    ¬ Fits (fields v) (.record .reference) (.map es) := by
  intro h
  obtain ⟨es', heq, h⟩ := h.record
  cases heq
  have hnone : (also "ref" (need "$ref" .text)).written? es = none := by
    rw [Field.written?]
    simp [also, need, hform "$ref" (by simp), hform "ref" (by simp)]
  have hin : also "ref" (need "$ref" .text) ∈ fields v .reference := by
    cases v <;> exact List.mem_cons_self
  exact absurd ((of_checkFields h _ hin).2 hnone) (by decide)

/-- **An accepted schema is a record of a schema**, unless it goes by one of
the names of a reference. -/
theorem fits_schema (h : Fits (fields v) schemaOrRef (.map es)) (hform : Lacks ["$ref", "ref"] es) :
    Fits (fields v) (.record .schema) (.map es) := by
  obtain ⟨shape, hshape, h⟩ := h.either
  simp only [List.mem_cons, List.not_mem_nil, or_false] at hshape
  rcases hshape with rfl | rfl
  · exact absurd h (not_fits_reference hform)
  · exact h

section

variable (h : Fits (fields v) (.record .schema) (.map es))
include h

/-- The type of an accepted schema is a word or a list of words, or null. -/
theorem cases_of_type (hd : Data.lookup "type" es = some d) :
    d.TextOrNull ∨ (∃ items, d = .list items ∧ ∀ x ∈ items, ∃ s, x.fieldText = .ok s) ∨
      ∃ members, d = .set members := by
  cases v with
  | v30 =>
    have hin : may "type" dataType30 ∈ fields .v30 .schema := by simp [fields, fields30]
    exact .inl ((h.field hin hd).optional.imp id Fits.word)
  | v31 =>
    have hin : may "type" (.either dataType31 [(.list dataType31)]) ∈ fields .v31 .schema := by
      simp [fields, fields31]
    rcases (h.field hin hd).optional with rfl | hfit
    · exact .inl (.inl rfl)
    · obtain ⟨shape, hshape, hfit⟩ := hfit.either
      simp only [List.mem_cons, List.not_mem_nil, or_false] at hshape
      rcases hshape with rfl | rfl
      · exact .inl (.inr hfit.word)
      · refine .inr (hfit.list.imp ?_ fun ⟨members, heq, _⟩ => ⟨members, heq⟩)
        exact fun ⟨items, heq, hitems⟩ => ⟨items, heq, fun x hx => (hitems x hx).word⟩

/-- So what counts of it is a text or null, if it is not a set. -/
theorem textOrNull_declaredType (htype : ∀ members, Data.lookup "type" es ≠ some (.set members)) :
    (declaredType es).TextOrNull := by
  rw [declaredType]
  cases hd : Data.lookup "type" es with
  | none => exact .inl rfl
  | some d =>
    rcases cases_of_type h hd with htext | ⟨items, rfl, hitems⟩ | ⟨members, rfl⟩
    · split
      · rename_i types heq
        cases heq
        rcases htext with htext | ⟨s, hs⟩
        · cases htext
        · cases hs
      · rename_i heq
        cases heq
        exact htext
      · exact .inl rfl
    · simp only
      split
      · rename_i t hfilter
        have hin : t ∈ items.filter fun t => t.text? ≠ some "null" := by
          rw [hfilter]
          exact List.mem_cons_self
        exact .inr (hitems t (List.mem_filter.mp hin).1)
      · exact .inl rfl
    · exact absurd hd (htype members)

/-- **The fields that all forms share have no faults.** -/
theorem sharedFaults_eq_nil (htype : ∀ members, Data.lookup "type" es ≠ some (.set members)) :
    sharedFaults es = [] := by
  have hformat : also "schema_format" (may "format" .text) ∈ fields v .schema := by
    cases v <;> simp [fields, fields30, fields31]
  have hdescription : may "description" .text ∈ fields v .schema := by
    cases v <;> simp [fields, fields30, fields31]
  rw [sharedFaults, optionalTextFaults_eq_nil (textOrNull_declaredType h htype)]
  have hf : (fieldOf "format" es).TextOrNull := textOrNull_of_fits (h.fieldOf hformat rfl)
  have hd : (fieldOf "description" es).TextOrNull := textOrNull_of_fits (h.fieldOf hdescription rfl)
  rw [optionalTextFaults_eq_nil hf, optionalTextFaults_eq_nil hd]
  rfl

/-- **The required names of an accepted schema are texts.** -/
theorem requiredNames_gives :
    Gives (requiredNames es) fun names => ∀ d ∈ names, ∃ s, d.fieldText = .ok s := by
  have hlisted : ∃ ds, (fieldOf "required" es).elementsOrNone = .ok ds ∧
      ∀ x ∈ ds, Fits (fields v) .text x := by
    cases v with
    | v30 =>
      have hin : may "required" (.nonEmptyList .text) ∈ fields .v30 .schema := by
        simp [fields, fields30]
      rcases (h.fieldOf hin rfl).optional with hnull | hfit
      · exact ⟨[], congrArg Data.elementsOrNone hnull, by simp⟩
      · exact hfit.nonEmptyList.elements
    | v31 =>
      have hin : may "required" (.list .text) ∈ fields .v31 .schema := by simp [fields, fields31]
      exact (h.fieldOf hin rfl).optionalElements
  obtain ⟨ds, hds, htexts⟩ := hlisted
  have hhashable : ds.all Data.isHashable = true := by
    rw [List.all_eq_true]
    intro x hx
    obtain ⟨s, hs⟩ := (htexts x hx).text
    cases x with
    | scalar _ => rfl
    | _ => cases hs
  refine ⟨distinctElements ds, ?_, fun x hx => (htexts x (mem_of_mem_distinctElements hx)).text⟩
  rw [requiredNames, hds]
  exact if_pos hhashable

end

/-! ## Reading -/

/-- Items that are read one by one are read. -/
theorem parseItems_gives {items : List Data}
    (h : ∀ d ∈ items, Gives (parse d) Usable) :
    Gives (parseItems items) fun nodes => ∀ n ∈ nodes, n.Usable := by
  rw [parseItems_eq_mapM]
  exact Gives.mapM_forall h

/-- Entries that are read one by one are read, and keep their keys. -/
theorem parseEntries_gives (h : ∀ e ∈ ps, Gives (parse e.2) Usable) :
    Gives (parseEntries ps) fun read => read.map Prod.fst = ps.map Prod.fst ∧
      ∀ e ∈ read, e.2.Usable := by
  induction ps with
  | nil => exact ⟨[], by rw [parseEntries], rfl, by simp⟩
  | cons e rest ih =>
    obtain ⟨k, d⟩ := e
    obtain ⟨s, hs, husable⟩ := h (k, d) List.mem_cons_self
    obtain ⟨read, hread, hkeys, hall⟩ := ih fun e he => h e (List.mem_cons_of_mem _ he)
    refine ⟨(k, s) :: read, by rw [parseEntries, hs, hread]; rfl, ?_, ?_⟩
    · rw [List.map_cons, List.map_cons, hkeys]
    · rintro n (_ | ⟨_, hn⟩)
      · exact husable
      · exact hall n hn

/-- The members of an `allOf` are read. -/
theorem parseAllOf_gives {members : Data}
    (hfit : Fits (fields v) (.optional (.list schemaOrRef)) members)
    (h : ∀ items, members = .list items → ∀ d ∈ items, Fits (fields v) schemaOrRef d →
      Gives (parse d) Usable) :
    Gives (parseAllOf members) Usable := by
  have hempty : (mergeMembers []).Usable := usable_mergeMembers (by simp)
  rcases hfit.optional with rfl | hfit
  · exact ⟨_, by rw [Data.null, parseAllOf.eq_def]; rfl, hempty⟩
  rcases hfit.list with ⟨items, rfl, hitems⟩ | ⟨members, rfl, hmembers⟩
  · have hread := fun d hd => h items rfl d hd (hitems d hd)
    cases items with
    | nil => exact ⟨_, by rw [parseAllOf.eq_def]; simp only [parseItems]; rfl, hempty⟩
    | cons d rest =>
      cases rest with
      | nil =>
        rw [parseAllOf]
        exact hread d List.mem_cons_self
      | cons e others =>
        obtain ⟨nodes, hnodes, hall⟩ := parseItems_gives hread
        exact ⟨_, by rw [parseAllOf.eq_def]; simp only [hnodes]; rfl, usable_mergeMembers hall⟩
  · -- no member of a set is accepted as a schema
    cases members with
    | nil => exact ⟨_, by rw [parseAllOf.eq_def]; rfl, hempty⟩
    | cons s rest =>
      obtain ⟨es, hes⟩ := exists_map_of_fits (hmembers s List.mem_cons_self)
      cases hes

/-- An object is made of properties that are read. -/
theorem objectOf_gives {properties : List (Scalar × Schema)} {required : List Data}
    (hshared : sharedFaults es = [])
    (hkeys : ∀ k ∈ properties.map Prod.fst, ∃ name, k = .str name)
    (hproperties : ∀ e ∈ properties, e.2.Usable)
    (hrequired : ∀ d ∈ required, ∃ s, d.fieldText = .ok s) :
    Gives (objectOf es properties required) Usable := by
  refine ⟨.object (declare es) (formatOf es) (describe es) (Data.textKeyed properties)
    (required.filterMap Data.fieldText?).eraseDups, ?_, ?_⟩
  · rw [objectOf, hshared, keyFaults_eq_nil hkeys, textListFaults_eq_nil hrequired]
    rfl
  · refine usable_object ⟨commentOf_describe es, by simp [values]⟩ fun e he => ?_
    obtain ⟨k, hk⟩ := exists_of_mem_textKeyed he
    exact hproperties _ hk

/-- The entries that an object is made of are read one by one. -/
theorem objectOf_entries_gives (h : Fits (fields v) (.record .schema) (.map es))
    (hshared : sharedFaults es = []) (hkeys : (Data.map ps).TextKeyed)
    (hps : ∀ e ∈ ps, Gives (parse e.2) Usable) :
    Gives (do objectOf es (← parseEntries ps) (← requiredNames es)) Usable := by
  obtain ⟨read, hread, hsame, husable⟩ := parseEntries_gives hps
  obtain ⟨required, hrequired, hnames⟩ := requiredNames_gives h
  rw [hread, hrequired]
  refine objectOf_gives hshared (fun k hk => ?_) husable hnames
  rw [hsame] at hk
  obtain ⟨e, he, rfl⟩ := List.mem_map.mp hk
  exact hkeys.key he

/-- There may be none. -/
theorem objectOf_nil_gives (h : Fits (fields v) (.record .schema) (.map es))
    (hshared : sharedFaults es = []) :
    Gives (do objectOf es [] (← requiredNames es)) Usable := by
  obtain ⟨required, hrequired, hnames⟩ := requiredNames_gives h
  rw [hrequired]
  exact objectOf_gives hshared (by simp) (by simp) hnames

/-- An array of items that are read is made. -/
theorem arrayOf_gives {items : Option Schema} (hshared : sharedFaults es = [])
    (hitems : ∀ s, items = some s → s.Usable) : Gives (arrayOf es items) Usable := by
  refine ⟨.array (declare es) (formatOf es) (describe es) items, ?_, ?_⟩
  · rw [arrayOf, hshared]
    rfl
  · cases items with
    | none => exact (usable_iff_fine rfl rfl).mpr ⟨commentOf_describe es, by simp [values]⟩
    | some s => exact usable_array ⟨commentOf_describe es, by simp [values]⟩ (hitems s rfl)

/-- The items of an array are read, unless they are empty. -/
theorem arrayOf_items_gives {items : Data} (hshared : sharedFaults es = [])
    (h : items.truthy = true → Gives (parse items) Usable) :
    Gives (if items.truthy then do arrayOf es (some (← parse items)) else arrayOf es none)
      Usable := by
  split
  · rename_i htruthy
    obtain ⟨s, hs, husable⟩ := h htruthy
    rw [hs]
    exact arrayOf_gives hshared fun s' heq => Option.some.inj heq ▸ husable
  · exact arrayOf_gives hshared (by simp)

/-- An enumeration of JSON values is made. -/
theorem enumerationOf_gives {listed : Data} (hshared : sharedFaults es = [])
    (hfit : Fits (fields v) (.optional (.nonEmptyList .anything)) listed)
    (hvalues : ∀ values, listed.elementsOrNone = .ok values → ∀ v ∈ values, v.IsJson) :
    Gives (enumerationOf es listed) Usable := by
  have hlisted : ∃ ds, listed.elementsOrNone = .ok ds := by
    rcases hfit.optional with rfl | hfit
    · exact ⟨[], rfl⟩
    · exact hfit.nonEmptyList.elements.imp fun _ h => h.1
  obtain ⟨ds, hds⟩ := hlisted
  refine ⟨.enumeration (declare es) (formatOf es) (describe es) ds, ?_, ?_⟩
  · rw [enumerationOf, hds, hshared]
    rfl
  · exact (usable_iff_fine rfl rfl).mpr ⟨commentOf_describe es, hvalues ds hds⟩

/-- A node of a named type is made, or one that nothing is known of. -/
theorem primitiveOf_gives (hshared : sharedFaults es = []) :
    Gives (primitiveOf es) Usable := by
  rw [primitiveOf]
  split
  · rename_i word _
    refine ⟨.primitive word (formatOf es) (describe es), ?_,
      (usable_iff_fine rfl rfl).mpr ⟨commentOf_describe es, by simp [values]⟩⟩
    rw [hshared]
    rfl
  · exact ⟨_, rfl, usable_unknown⟩

/-- A reference whose pointer is a text is made. -/
theorem referenceTo_gives {pointer : String} (hd : (fieldOf "description" es).TextOrNull) :
    Gives (referenceTo (.str pointer) es) Usable := by
  refine ⟨.reference (Naming.refName pointer) (describe es), ?_,
    (usable_iff_fine rfl rfl).mpr ⟨commentOf_describe es, by simp [values]⟩⟩
  simp only [referenceTo, Data.str, Data.text, optionalTextFaults_eq_nil hd]
  rfl

/-- A description that is handed down can be a comment, unless it is bytes. -/
theorem commentOf_of_textOrNull (h : d.TextOrNull) (hd : ∀ b, d ≠ .scalar (.bytes b)) :
    ∃ c, TypeScript.commentOf (some d) = .ok c := by
  rcases h with rfl | ⟨t, ht⟩
  · exact ⟨none, rfl⟩
  · rw [Data.fieldText.eq_def] at ht
    split at ht
    · exact commentOf_str _
    · exact absurd rfl (hd _)
    · cases ht

/-- **An accepted schema that is no reference is read** if those are that are
read along with it. -/
theorem parse_gives_of_inline (hkeys : (Data.map es).TextKeyed)
    (h : Fits (fields v) (.record .schema) (.map es)) (hp : Data.lookup "$ref" es = none)
    (htype : ∀ members, Data.lookup "type" es ≠ some (.set members))
    (hvalues : ∀ listed values, Data.lookup "enum" es = some listed →
      listed.elementsOrNone = .ok values → ∀ v ∈ values, v.IsJson)
    (hdescription : (Data.lookup "allOf" es).isSome →
      ∃ c, TypeScript.commentOf (some (fieldOf "description" es)) = .ok c)
    (hchildren : ∀ d, Child (.map es) d → d.TextKeyed → Fits (fields v) schemaOrRef d →
      Gives (parse d) Usable) :
    Gives (parse (.map es)) Usable := by
  have hallOf : may "allOf" (.list schemaOrRef) ∈ fields v .schema := by
    cases v <;> simp [fields, fields30, fields31]
  have henum : may "enum" (.nonEmptyList .anything) ∈ fields v .schema := by
    cases v <;> simp [fields, fields30, fields31]
  have hitems : may "items" schemaOrRef ∈ fields v .schema := by
    cases v <;> simp [fields, fields30, fields31]
  have hproperties : may "properties" (.mapping schemaOrRef) ∈ fields v .schema := by
    cases v <;> simp [fields, fields30, fields31]
  have hshared := sharedFaults_eq_nil h htype
  rw [parse]
  -- the forms in the order in which they are tried
  split
  · rename_i hpointer
    rw [hp] at hpointer
    cases hpointer
  split
  · rename_i members ha
    obtain ⟨s, hs, husable⟩ := parseAllOf_gives (h.field hallOf ha) fun items heq d hd hfit =>
      hchildren d (.member (by simpa [Lacks] using hp) (heq ▸ ha) hd)
        ((heq ▸ hkeys.of_lookup ha).item hd) hfit
    rw [hs]
    exact ⟨_, rfl, husable.inheritDescription (hdescription (by rw [ha]; rfl))⟩
  rename_i ha
  split
  · exact ⟨_, rfl, usable_unknown⟩
  rename_i hopen
  have hone : Data.lookup "oneOf" es = none ∧ Data.lookup "anyOf" es = none := by simpa using hopen
  split
  · rename_i listed he
    exact enumerationOf_gives hshared (h.field henum he) fun values => hvalues listed values he
  rename_i he
  split
  · rename_i items hi
    refine arrayOf_items_gives hshared fun htruthy => ?_
    rcases (h.field hitems hi).optional with rfl | hfit
    · cases htruthy
    · exact hchildren items (.items (by simp [Lacks, hp, ha, hone, he]) hi) (hkeys.of_lookup hi) hfit
  rename_i hi
  split
  · exact arrayOf_gives hshared (by simp)
  split
  · rename_i ps hps
    rcases (h.field hproperties hps).optional with hnull | hmapping
    · cases hnull
    · obtain ⟨ps', heq, hfits⟩ := hmapping.mapping
      cases heq
      have hpsKeys := hkeys.of_lookup hps
      exact objectOf_entries_gives h hshared hpsKeys fun e he' =>
        hchildren e.2 (.property (by simp [Lacks, hp, ha, hone, he, hi]) hps he')
          (hpsKeys.value he') (hfits e he')
  · rename_i other hnot hps
    rcases (h.field hproperties hps).optional with rfl | hmapping
    · exact objectOf_nil_gives h hshared
    · obtain ⟨ps, rfl, -⟩ := hmapping.mapping
      exact absurd rfl (hnot ps)
  · split
    · exact objectOf_nil_gives h hshared
    · exact primitiveOf_gives hshared

/-- What is read along with a schema is smaller. -/
theorem Child.sizeOf_lt {c : Data} (h : Child d c) : sizeOf c < sizeOf d := by
  cases h with
  | member _ ha hd =>
    have hlist := Data.sizeOf_lookup_lt ha
    have hitem := List.sizeOf_lt_of_mem hd
    simp only [Data.list.sizeOf_spec, Data.map.sizeOf_spec] at hlist ⊢
    omega
  | items _ hi =>
    have hitem := Data.sizeOf_lookup_lt hi
    simp only [Data.map.sizeOf_spec]
    omega
  | @property _ _ e _ hp he =>
    have hmap := Data.sizeOf_lookup_lt hp
    have hitem := List.sizeOf_lt_of_mem he
    obtain ⟨k, c⟩ := e
    simp only [Prod.mk.sizeOf_spec, Data.map.sizeOf_spec] at hmap hitem ⊢
    omega

/-- **An accepted schema is read** if all are regular that are read along
with it, and its node is usable. -/
theorem parse_gives (hkeys : d.TextKeyed) (hfit : Fits (fields v) schemaOrRef d)
    (hregular : RegularThroughout d) :
    Gives (parse d) Usable := by
  induction hsize : sizeOf d using Nat.strongRecOn generalizing d with
  | ind size ih =>
    obtain ⟨es, rfl⟩ := exists_map_of_fits hfit
    have hchildren : ∀ c, Child (.map es) c → c.TextKeyed → Fits (fields v) schemaOrRef c →
        Gives (parse c) Usable := fun c hc hkeys hfit =>
      ih (sizeOf c) (hsize ▸ hc.sizeOf_lt) hkeys hfit
        (fun es' hes' => hregular es' (.head hc hes')) rfl
    cases hregular es .refl with
    | reference hp hd =>
      rw [parse, hp]
      exact referenceTo_gives hd
    | inline hform htype hvalues hd =>
      have h := fits_schema hfit hform
      have hin : may "description" .text ∈ fields v .schema := by
        cases v <;> simp [fields, fields30, fields31]
      exact parse_gives_of_inline hkeys h (hform "$ref" (by simp)) htype hvalues
        (fun ha => commentOf_of_textOrNull (textOrNull_of_fits (h.fieldOf hin rfl)) (hd ha))
        hchildren

/-- A regular schema is regular throughout if those are that are read along
with it. -/
theorem Regular.throughout (h : Regular es)
    (hchildren : ∀ c, Child (.map es) c → RegularThroughout c) : RegularThroughout (.map es) := by
  intro es' hes
  rcases hes.cases_head with heq | ⟨c, hc, hes⟩
  · cases heq
    exact h
  · exact hchildren c hc es' hes

/-- What is no mapping has no schemas. -/
theorem regularThroughout_of_missing {es : List (Scalar × Data)}
    (h : ∀ d, Data.lookup name es = some d → RegularThroughout d) :
    RegularThroughout ((Data.lookup name es).getD .null) := by
  cases hd : Data.lookup name es with
  | some d => exact h d hd
  | none =>
    intro es' hes
    rcases hes.cases_head with heq | ⟨c, hc, -⟩
    · cases heq
    · cases hc

/-- The same where there may be no schema. -/
theorem parse_gives_of_optional (hkeys : d.TextKeyed)
    (hfit : Fits (fields v) (.optional schemaOrRef) d) (hregular : RegularThroughout d) :
    Gives (parse d) Usable := by
  rcases hfit.optional with rfl | hfit
  · exact ⟨_, by rw [Data.null, parse]; simp, usable_unknown⟩
  · exact parse_gives hkeys hfit hregular

end Schema

end ApiMock
