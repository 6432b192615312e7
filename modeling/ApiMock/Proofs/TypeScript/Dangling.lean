import ApiMock.Proofs.Blueprint.Made
import ApiMock.Proofs.TypeScript.Reports
/-!
# TypeScript — references to nothing are reported

The definitions of a JSON document are declared one after the other, from
any pass. Whatever the outcome, a reference is reported only if it dangles.
A definition that is declared has all of its own dangling references
reported, and it is declared if its comments can be written; the first one
whose comments cannot be is the end, and those behind it are not looked at.
-/

namespace ApiMock

namespace TypeScript

open Entries Resolving

variable {defs before after : Definitions} {node : Schema} {name : String} {p q : Pass}

/-- A definition that is declared has comments that can be written. -/
theorem declare_commented : Yields (declare defs name node) fun _ => node.Commented := by
  -- resolving says nothing about comments; that it keeps the log is all there is to it
  have hresolve : ∀ s, Yields (resolve defs [name] s) fun _ => True := by
    intro s p r q h
    obtain ⟨⟨made, walk⟩, -⟩ := resolve_serves.walk h
    exact ⟨walk.log_prefix, trivial⟩
  have hof : ∀ body, (∀ e ∈ node.properties, ∃ c, commentOf e.2.description? = .ok c) →
      Yields (liftM (declarationOf name node body)) fun _ => node.Commented := by
    intro body hproperties
    refine .lift fun d hd => ?_
    obtain ⟨c, hc, -⟩ := Sequence.of_map_ok hd
    exact ⟨⟨c, hc⟩, hproperties⟩
  rcases object_or_not node with ⟨t, f, d, ps, rs, rfl⟩ | hnot
  · rw [declare_eq_with, declareWith_object]
    have hmember : ∀ e ∈ ps, Yields (memberWith (resolve defs) name rs e)
        fun _ => ∃ c, commentOf e.2.description? = .ok c := by
      intro e _
      refine (Yields.lift (P := fun _ => ∃ c, commentOf e.2.description? = .ok c) ?_).bind
        fun c hc => ?_
      · exact fun c hc => ⟨c, hc⟩
      · exact (hresolve e.2).bind fun r _ => .pure hc
    refine (Yields.mapM hmember).bind fun ms hms => hof _ fun e he => ?_
    obtain ⟨m, -, hc⟩ := Sequence.exists_of_mem_left hms he
    exact hc
  · have hproperties : node.properties = [] := by
      cases node with
      | object t f d ps rs => exact absurd rfl (hnot t f d ps rs)
      | _ => rfl
    rw [declare_eq_with, declareWith_alias hnot]
    exact (hresolve node).bind fun r _ => hof _ (by simp [hproperties])

/-- The definitions on a course have comments that can be written. -/
theorem Course.commented {rest : Definitions} {table : List (String × Declared)}
    {ds : List Declared} (h : Course defs rest table p ds q) : ∀ d ∈ rest, d.2.Commented := by
  induction h with
  | done => exact fun d hd => absurd hd List.not_mem_nil
  | next hd _ ih => exact List.forall_mem_cons.mpr ⟨(declare_commented _ _ _ hd).2, ih⟩

/-- **What stands in front of a definition that cannot be declared is reported.**
From definitions whose comments can be written on, whatever comes behind
them, each reference of theirs that dangles is reported. -/
theorem dangling_of_commented {o : Except Failure (List (String × Declared))}
    {new : List LogEntry} {t : String} {d : String × Schema}
    (hdefs : ∀ d ∈ before ++ after, d.2.JsonValued) (hcomments : ∀ d ∈ before, d.2.Commented)
    (h : (declareAll (before ++ after)).result p = (o, q)) (hnew : q.log = p.log ++ new)
    (hd : d ∈ before) (hmentions : d.2.Mentions t) (ht : t ∉ keys (before ++ after)) :
    (Report.dangling t).entry ∈ new := by
  have hin : ∀ d ∈ before, d ∈ before ++ after := fun d hd => List.mem_append_left after hd
  have hrest : ∀ d ∈ after, d ∈ before ++ after := fun d hd => List.mem_append_right before hd
  -- those in front are declared, and the others only add to the log
  obtain ⟨table, inner, hfirst⟩ :=
    declaring_succeeds [] hdefs hin hcomments p
  obtain ⟨ds, course, -⟩ := exists_course hfirst
  obtain ⟨rs, htold, -, hcomplete, -⟩ := course.told hin
  rw [declareAll, List.foldlM_append, result_bind_of_ok hfirst] at h
  obtain ⟨rs', htold', -⟩ := declaring_tells table hrest inner
  rw [h] at htold'
  have hall : p.log ++ new = p.log ++ (rs ++ rs').map Report.entry :=
    hnew.symm.trans (htold.trans htold')
  rw [List.append_cancel_left hall]
  exact List.mem_map_of_mem (List.mem_append_left _ (hcomplete d hd t hmentions ht))

/-- **References to nothing are reported, and nothing else is.** Declaring the
definitions of a JSON document, from any pass:

* whatever the outcome, a reference is reported only if a definition has it
  and it leads to no definition;
* up to the first definition whose comments cannot be written, each such
  reference is reported;
* all are declared exactly if all comments can be written;
* if all are declared, the references reported are exactly those that
  lead to no definition.

A name in the log is told by its code points. -/
theorem dangling_reported {document : Data} {s : Spec}
    {o : Except Failure (List (String × Declared))} (hdoc : document.IsJson)
    (hparse : Spec.parse document = .ok s) (h : (declareAll s.schemas).result p = (o, q)) :
    ∃ new, q.log = p.log ++ new ∧
      (∀ t, (Report.dangling t).entry ∈ new →
        ∃ name, Text.SamePoints name t ∧ Dangling s.schemas name) ∧
      (∀ before after, s.schemas = before ++ after → (∀ d ∈ before, d.2.Commented) →
        ∀ d ∈ before, ∀ t, d.2.Mentions t → t ∉ keys s.schemas →
          (Report.dangling t).entry ∈ new) ∧
      ((∃ table, o = .ok table) ↔ ∀ d ∈ s.schemas, d.2.Commented) ∧
      ((∃ table, o = .ok table) → ∀ t, (Report.dangling t).entry ∈ new ↔
        ∃ name, Text.SamePoints name t ∧ Dangling s.schemas name) := by
  have hdefs : ∀ d ∈ s.schemas, d.2.JsonValued := (Spec.jsonValued_of_parse hdoc hparse).schemas
  obtain ⟨rs, htold, hrs⟩ := declaring_tells [] (fun d hd => hd) p
  have hq : ((declareAll s.schemas).result p).2 = q := by rw [h]
  have hnew : q.log = p.log ++ rs.map Report.entry := hq ▸ htold
  have hsound : ∀ t, (Report.dangling t).entry ∈ rs.map Report.entry →
      ∃ name, Text.SamePoints name t ∧ Dangling s.schemas name := by
    intro t ht
    obtain ⟨name, hname, hmem⟩ := Report.exists_dangling_of_mem ht
    exact ⟨name, hname, hrs name hmem⟩
  have hfront : ∀ before after, s.schemas = before ++ after → (∀ d ∈ before, d.2.Commented) →
      ∀ d ∈ before, ∀ t, d.2.Mentions t → t ∉ keys s.schemas →
        (Report.dangling t).entry ∈ rs.map Report.entry := by
    intro before after hsplit hcomments d hd t hmentions ht
    rw [hsplit] at hdefs h ht
    exact dangling_of_commented hdefs hcomments h hnew hd hmentions ht
  have hdeclared : (∃ table, o = .ok table) ↔ ∀ d ∈ s.schemas, d.2.Commented := by
    constructor
    · rintro ⟨table, rfl⟩
      obtain ⟨ds, course, -⟩ := exists_course h
      exact course.commented
    · intro hcomments
      obtain ⟨table, q', hok⟩ := declareAll_succeeds hdefs hcomments p
      rw [hok] at h
      exact ⟨table, (Prod.mk.inj h).1.symm⟩
  refine ⟨rs.map Report.entry, hnew, hsound, hfront, hdeclared, fun hok t => ⟨hsound t, ?_⟩⟩
  rintro ⟨name, hname, hundefined, d, hd, hmentions⟩
  rw [← Report.dangling_entry_eq hname]
  have hcomments : ∀ d ∈ s.schemas, d.2.Commented := hdeclared.mp hok
  exact hfront s.schemas [] (List.append_nil _).symm hcomments d hd name hmentions hundefined

/-- Definitions with references to nothing, in a property and in an array. -/
def strays : Definitions :=
  [("Pet", .object (some "object") none none
      [("owner", .reference "Person" none),
        ("tags", .array (some "array") none none (some (.reference "Tag" none)))] []),
    ("Friend", .reference "Pet" none)]

/-- A document that defines them. -/
def strayDocument : Data :=
  .map [(.str "info", .map [(.str "title", .scalar (.str "Pets")),
      (.str "version", .scalar (.str "1"))]),
    (.str "components", .map [(.str "schemas", .map [
      (.str "Pet", .map [(.str "type", .scalar (.str "object")),
        (.str "properties", .map [
          (.str "owner", .map [(.str "$ref", .scalar (.str "#/components/schemas/Person"))]),
          (.str "tags", .map [(.str "type", .scalar (.str "array")),
            (.str "items", .map [(.str "$ref", .scalar (.str "#/components/schemas/Tag"))])])])]),
      (.str "Friend", .map [(.str "$ref", .scalar (.str "#/components/schemas/Pet"))])])])]

/-- Although an expansion of the object is there, both are reported. -/
theorem strays_reported :
    Spec.parse strayDocument = .ok ⟨⟨"Pets", "1", none⟩, [], [], strays⟩ ∧
    ∃ table q, (declareAll strays).result ⟨[("Pet", .plain .any)], []⟩ = (.ok table, q) ∧
      (∀ t, (Report.dangling t).entry ∈ q.log ↔
        ∃ name, Text.SamePoints name t ∧ Dangling strays name) ∧
      (Report.dangling "Person").entry ∈ q.log ∧ (Report.dangling "Tag").entry ∈ q.log := by
  have hdoc : strayDocument.IsJson := by simp [strayDocument]
  have hparse : Spec.parse strayDocument = .ok ⟨⟨"Pets", "1", none⟩, [], [], strays⟩ := by cbv
  have hdefs : ∀ d ∈ strays, d.2.JsonValued := (Spec.jsonValued_of_parse hdoc hparse).schemas
  have hcomments : ∀ d ∈ strays, d.2.Commented := by
    have hnone : ∃ c, commentOf none = .ok c := ⟨none, rfl⟩
    intro d hd
    rcases List.mem_cons.mp hd with rfl | hd
    · refine ⟨hnone, fun e he => ?_⟩
      rcases List.mem_cons.mp he with rfl | he
      · exact hnone
      · rw [List.mem_singleton.mp he]
        exact hnone
    · rw [List.mem_singleton.mp hd]
      exact ⟨hnone, fun e he => absurd he List.not_mem_nil⟩
  obtain ⟨table, q, h⟩ := declareAll_succeeds hdefs hcomments ⟨[("Pet", .plain .any)], []⟩
  obtain ⟨new, hnew, -, -, -, hiff⟩ := dangling_reported hdoc hparse h
  obtain rfl : q.log = new := hnew
  have hreported := hiff ⟨table, rfl⟩
  have hdangling : Dangling strays "Person" ∧ Dangling strays "Tag" := by
    simp [Dangling, strays, keys]
  refine ⟨hparse, table, q, h, hreported, ?_, ?_⟩
  · exact (hreported "Person").mpr ⟨"Person", rfl, hdangling.1⟩
  · exact (hreported "Tag").mpr ⟨"Tag", rfl, hdangling.2⟩

/-- A document in which the description of the first of two definitions is no
text. The second one is a reference to nothing. -/
def misdescribed : Data :=
  .map [(.str "info", .map [(.str "title", .scalar (.str "Pets")),
      (.str "version", .scalar (.str "1"))]),
    (.str "components", .map [(.str "schemas", .map [
      (.str "Base", .map [(.str "allOf", .list [.map [(.str "type", .scalar (.str "object"))]]),
        (.str "description", .scalar (.bool true))]),
      (.str "Pet", .map [(.str "$ref", .scalar (.str "#/components/schemas/Missing"))])])])]

/-- **A reference to nothing can go unreported**: the description is read as it
is, and the run stops at it before the reference. -/
theorem dangling_unreported :
    misdescribed.IsJson ∧ ∃ s e q, Spec.parse misdescribed = .ok s ∧
      (declareAll s.schemas).result ⟨[], []⟩ = (.error e, q) ∧ q.log = [] ∧
      Dangling s.schemas "Missing" := by
  have hdoc : misdescribed.IsJson := by
    simp [misdescribed, Data.IsJson.list, Data.IsJson.bool]
  refine ⟨hdoc, ⟨⟨"Pets", "1", none⟩, [], [], [("Base", .object (some "object") none
    (some (.scalar (.bool true))) [] []), ("Pet", .reference "Missing" none)]⟩, .notText, ⟨[], []⟩,
    by cbv, by cbv, rfl, ?_⟩
  simp [Dangling, keys]

end TypeScript

end ApiMock
