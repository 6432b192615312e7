import ApiMock.Proofs.Blueprint.Parts
import ApiMock.Proofs.TypeScript.Transparent
/-!
# Blueprint — when one is made

A step that succeeds whatever was gathered before it can stand anywhere in
a pass. Among JSON values resolving is such a step, and so is all that a
blueprint is made of. What can stop it is a description that is no text, or
a status code that is no number (`exists_blueprint`).
-/

namespace ApiMock

open TypeScript Entries Resolving

/-- The step succeeds whatever was gathered before. -/
def Succeeds {α : Type} (x : Resolving α) : Prop :=
  ∀ p, ∃ a q, x.result p = (.ok a, q)

namespace Succeeds

variable {α β ι : Type} {x : Resolving α}

theorem pure (a : α) : Succeeds (pure a) :=
  fun p => ⟨a, p, rfl⟩

theorem lift {o : Except Failure α} (h : ∃ a, o = .ok a) : Succeeds (liftM o) := by
  obtain ⟨a, rfl⟩ := h
  exact fun p => ⟨a, p, result_lift⟩

theorem bind {f : α → Resolving β} (h : Succeeds x) (hf : ∀ a, Succeeds (f a)) :
    Succeeds (x >>= f) := by
  intro p
  obtain ⟨a, q, hx⟩ := h p
  rw [result_bind_of_ok hx]
  exact hf a q

theorem map {f : α → β} (h : Succeeds x) : Succeeds (f <$> x) := by
  rw [← bind_pure_comp]
  exact h.bind fun a => .pure (f a)

theorem warnings (reporter : Reporter) (messages : List String) :
    Succeeds (messages.forM (warn reporter)) :=
  fun _ => ⟨(), _, result_forM_warn⟩

theorem mapM {f : ι → Resolving α} {is : List ι} (h : ∀ i ∈ is, Succeeds (f i)) :
    Succeeds (is.mapM f) := by
  induction is with
  | nil => exact .pure []
  | cons i rest ih =>
    rw [List.mapM_cons]
    refine (h i List.mem_cons_self).bind fun a => ?_
    refine (ih fun j hj => h j (List.mem_cons_of_mem i hj)).bind fun as => ?_
    exact .pure (a :: as)

theorem option {f : ι → Resolving α} {o : Option ι} (h : ∀ i ∈ o, Succeeds (f i)) :
    Succeeds (o.mapM f) := by
  cases o with
  | none => exact .pure none
  | some i => exact (h i rfl).map

theorem foldlM {f : α → ι → Resolving α} {is : List ι} {init : α}
    (h : ∀ i ∈ is, ∀ a, Succeeds (f a i)) : Succeeds (is.foldlM f init) := by
  induction is generalizing init with
  | nil => exact .pure init
  | cons i rest ih =>
    rw [List.foldlM_cons]
    exact (h i List.mem_cons_self init).bind fun _ =>
      ih fun j hj => h j (List.mem_cons_of_mem i hj)

end Succeeds

/-- The descriptions that become comments, of a definition and of its
properties, can be written. -/
structure Schema.Commented (node : Schema) : Prop where
  self : ∃ c, commentOf node.description? = .ok c
  properties : ∀ e ∈ node.properties, ∃ c, commentOf e.2.description? = .ok c

section

variable {defs : Definitions} {seen : List String} {node : Schema} {name : String}

/-- Among JSON values every node resolves. -/
theorem resolve_succeeds (hseen : ∀ k ∈ seen, k ∈ keys defs) (hdefs : ∀ d ∈ defs, d.2.JsonValued)
    (hnode : node.JsonValued) : Succeeds (resolve defs seen node) := by
  intro p
  obtain ⟨r, q, h, -⟩ := resolve_isOk (p := p) hseen hdefs hnode
  exact ⟨r, q, h⟩

/-- A definition with comments that can be written is declared. -/
theorem declare_succeeds (hname : name ∈ keys defs) (hdefs : ∀ d ∈ defs, d.2.JsonValued)
    (hnode : node.JsonValued) (hcomments : node.Commented) : Succeeds (declare defs name node) := by
  have hseen : ∀ k ∈ [name], k ∈ keys defs := by simpa using hname
  have hof : ∀ body, Succeeds (liftM (declarationOf name node body)) := by
    intro body
    obtain ⟨c, hc⟩ := hcomments.self
    exact .lift ⟨⟨Naming.pascal name, c, body⟩, by rw [declarationOf, hc]; rfl⟩
  rcases object_or_not node with ⟨t, f, d, ps, rs, rfl⟩ | hnot
  · rw [declare_eq_with, declareWith_object]
    refine (Succeeds.mapM fun e he => ?_).bind fun ms => hof _
    refine (Succeeds.lift (hcomments.properties e he)).bind fun comment => ?_
    exact (resolve_succeeds hseen hdefs (hnode.of_mem_properties he)).bind fun _ => .pure _
  · rw [declare_eq_with, declareWith_alias hnot]
    exact (resolve_succeeds hseen hdefs hnode).bind fun _ => hof _

/-- And so are several definitions, one after the other. -/
theorem declaring_succeeds {rest : Definitions} (table : List (String × Declared))
    (hdefs : ∀ d ∈ defs, d.2.JsonValued) (hin : ∀ d ∈ rest, d ∈ defs)
    (hcomments : ∀ d ∈ rest, d.2.Commented) :
    Succeeds (rest.foldlM (fun table d => declareInto defs table d.1 d.2) table) := by
  refine .foldlM fun d hd table => ?_
  have hmem := hin d hd
  rw [declareInto_eq]
  refine (declare_succeeds (List.mem_map_of_mem hmem) hdefs (hdefs d hmem) (hcomments d hd)).bind ?_
  exact fun _ => (Succeeds.warnings _ _).bind fun _ => .pure _

/-- And so are all definitions. -/
theorem declareAll_succeeds (hdefs : ∀ d ∈ defs, d.2.JsonValued)
    (hcomments : ∀ d ∈ defs, d.2.Commented) : Succeeds (declareAll defs) :=
  declaring_succeeds [] hdefs (fun _ => id) hcomments

end

namespace Blueprint

variable {s : Spec} {config : Option Config} {seed : Option Seed} {defs : Definitions}
  {o : Operation}

theorem typeOf_succeeds {node : Schema} (hdefs : ∀ d ∈ defs, d.2.JsonValued)
    (hnode : node.JsonValued) : Succeeds (typeOf defs node) :=
  (resolve_succeeds (by simp) hdefs hnode).bind fun _ => .pure _

theorem content_succeeds {content : List (String × Schema)} (hdefs : ∀ d ∈ defs, d.2.JsonValued)
    (hcontent : ∀ e ∈ content, e.2.JsonValued) :
    Succeeds ((content.lookup jsonContent).mapM (typeOf defs)) :=
  .option fun _ hnode => typeOf_succeeds hdefs (hcontent _ (mem_of_lookup hnode))

/-- The types of a JSON-valued operation are made. -/
theorem endpointTypes_succeeds (hdefs : ∀ d ∈ defs, d.2.JsonValued) (ho : o.JsonValued) :
    Succeeds (endpointTypes defs o) := by
  have hfields : ∀ required location,
      Succeeds (requestFields defs required (o.parametersIn location)) :=
    fun required location => .mapM fun p hp =>
      (typeOf_succeeds hdefs (ho.parameters p (List.mem_of_mem_filter hp))).bind fun _ => .pure _
  have hrequest : Succeeds (requestType defs o) := by
    rw [requestType]
    cases hbody : o.body with
    | none => exact .pure none
    | some body =>
      refine (hfields _ _).bind fun _ => (hfields _ _).bind fun _ => ?_
      exact (content_succeeds hdefs (ho.body body hbody)).bind fun _ => .pure _
  have hresponse : Succeeds (responseType defs o) := by
    rw [responseType]
    cases hfind : o.responses.find? fun r => r.status.toList.head? = some '2' with
    | none => exact .pure none
    | some r => exact content_succeeds hdefs (ho.responses r (List.mem_of_find?_eq_some hfind))
  exact hrequest.bind fun _ => hresponse.bind fun _ => .pure _

/-- **A blueprint is made** of a JSON-valued specification whose routes and
comments can be made. -/
theorem exists_blueprint (hs : s.JsonValued) (hcomments : ∀ d ∈ s.schemas, d.2.Commented)
    (hroutes : ∃ routes, s.routes = .ok routes) :
    ∃ b log, (s.blueprint config seed).outcome = (.ok b, log) := by
  have hbuild : Succeeds (build s config seed) := by
    refine (declareAll_succeeds hs.schemas hcomments).bind fun table => ?_
    refine (Succeeds.lift hroutes).bind fun routes => ?_
    refine Succeeds.bind (fun p => ⟨_, _, result_groups⟩) fun groups => ?_
    refine (Succeeds.mapM fun o ho => ?_).bind fun _ => .pure _
    exact endpointTypes_succeeds hs.schemas (hs.operations o ho)
  obtain ⟨b, q, h⟩ := hbuild ⟨[], []⟩
  exact ⟨b, q.log, outcome_eq_iff.mpr ⟨q.expansions, h⟩⟩

end Blueprint

end ApiMock
