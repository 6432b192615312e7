import ApiMock.Proofs.Blueprint.Parts
import ApiMock.Proofs.TypeScript.Yields
/-!
# Blueprint — its contents

What a blueprint holds, definition by definition and operation by
operation, and what was reported when it was made (`contents`). The types
are those that are read off the nodes, so nothing here depends on what a
pass has expanded.
-/

namespace ApiMock

open TypeScript Entries Resolving

variable {R R' : Schema → TypeExpr → Prop}

/-- The schema of a successful response, from which its type is made. -/
def Operation.responseSchema (o : Operation) : Option Schema :=
  (o.responses.find? fun r => r.status.toList.head? = some '2').bind fun r =>
    r.content.lookup Blueprint.jsonContent

/-- The type of a request has, for each schema of the request, a type that
`R` relates to it. -/
structure RequestType.For (R : Schema → TypeExpr → Prop) (o : Operation) (body : RequestBody)
    (r : RequestType) : Prop where
  pathFields : List.Forall₂ (fun p f => f.1 = ⟨p.name, true⟩ ∧ R p.schema f.2)
    (o.parametersIn "path") r.pathFields
  queryFields : List.Forall₂ (fun p f => f.1 = ⟨p.name, p.required⟩ ∧ R p.schema f.2)
    (o.parametersIn "query") r.queryFields
  body : Option.Rel R (body.content.lookup Blueprint.jsonContent) r.body

/-- The types of an operation have the canonical name of its id, and for
each schema of the operation a type that `R` relates to it. Only an
operation with a body has a request. -/
structure EndpointTypes.For (R : Schema → TypeExpr → Prop) (o : Operation) (e : EndpointTypes) :
    Prop where
  name : e.name = Naming.pascal o.id
  request : Option.Rel (RequestType.For R o) o.body e.request
  response : Option.Rel R o.responseSchema e.response

theorem optionRel_mono {α β : Type} {P P' : α → β → Prop} {x : Option α} {y : Option β}
    (h : Option.Rel P x y) (hP : ∀ a b, P a b → P' a b) : Option.Rel P' x y := by
  cases h with
  | some h => exact .some (hP _ _ h)
  | none => exact .none

theorem optionRel_isSome {α β : Type} {P : α → β → Prop} {x : Option α} {y : Option β}
    (h : Option.Rel P x y) : y.isSome = x.isSome := by
  cases h <;> rfl

theorem RequestType.For.mono {o : Operation} {body : RequestBody} {r : RequestType}
    (h : RequestType.For R o body r) (hR : ∀ s t, R s t → R' s t) :
    RequestType.For R' o body r where
  pathFields := h.pathFields.imp fun _ _ hf => ⟨hf.1, hR _ _ hf.2⟩
  queryFields := h.queryFields.imp fun _ _ hf => ⟨hf.1, hR _ _ hf.2⟩
  body := optionRel_mono h.body hR

/-- The types may be related more loosely. -/
theorem EndpointTypes.For.mono {o : Operation} {e : EndpointTypes} (h : EndpointTypes.For R o e)
    (hR : ∀ s t, R s t → R' s t) : EndpointTypes.For R' o e where
  name := h.name
  request := optionRel_mono h.request fun _ _ hr => hr.mono hR
  response := optionRel_mono h.response hR

namespace Blueprint

variable {s : Spec} {config : Option Config} {seed : Option Seed} {b : Blueprint}
  {log : List LogEntry} {defs : Definitions} {o : Operation}

/-! ## The types of an operation -/

theorem typeOf_yields {node : Schema} :
    Yields (typeOf defs node) fun t => TypeExpr.ofNode (keys defs) node = .ok t :=
  (resolve_yields (by simp)).bind fun _ hr => .pure hr

theorem requestFields_yields {required : Parameter → Bool} {ps : List Parameter} :
    Yields (requestFields defs required ps) (List.Forall₂ (fun p f =>
      f.1 = ⟨p.name, required p⟩ ∧ TypeExpr.ofNode (keys defs) p.schema = .ok f.2) ps) :=
  .mapM fun _ _ => typeOf_yields.bind fun _ ht => .pure ⟨rfl, ht⟩

theorem requestType_yields : Yields (requestType defs o) (Option.Rel
    (RequestType.For (fun s t => TypeExpr.ofNode (keys defs) s = .ok t) o) o.body) := by
  rw [requestType]
  cases o.body with
  | none => exact .pure .none
  | some body =>
    refine requestFields_yields.bind fun pathFields hpath => ?_
    refine requestFields_yields.bind fun queryFields hquery => ?_
    refine (Yields.option fun _ _ => typeOf_yields).bind fun type htype => ?_
    exact .pure (.some ⟨hpath, hquery, htype⟩)

theorem responseType_yields : Yields (responseType defs o)
    (Option.Rel (fun s t => TypeExpr.ofNode (keys defs) s = .ok t) o.responseSchema) := by
  rw [responseType, Operation.responseSchema]
  cases o.responses.find? fun r => r.status.toList.head? = some '2' with
  | none => exact .pure .none
  | some r => exact .option fun _ _ => typeOf_yields

/-- **The types of an operation are read off its schemas.** -/
theorem endpointTypes_yields : Yields (endpointTypes defs o)
    (EndpointTypes.For (fun s t => TypeExpr.ofNode (keys defs) s = .ok t) o) := by
  refine requestType_yields.bind fun request hrequest => ?_
  refine responseType_yields.bind fun response hresponse => ?_
  exact .pure ⟨rfl, hrequest, hresponse⟩

/-! ## The whole blueprint -/

/-- A blueprint holds what is made of the specification, and what the log
has to say of names that are taken is in it. -/
structure Contents (s : Spec) (seed : Option Seed) (b : Blueprint) (log : List LogEntry)
    (ds : List Declared) (routes : List (String × List Route)) : Prop where
  declared : List.Forall₂ (fun e d => d.source = e.1 ∧ Declares (keys s.schemas) e d.declaration)
    s.schemas ds
  declarations : b.declarations =
    (Entries.ofList (ds.map Declared.entry)).map fun e => e.2.declaration
  collisions : ∀ m ∈ collisionsFrom [] ds, ⟨.warning, .types, m⟩ ∈ log
  routed : s.routes = .ok routes
  groups : b.groups = routes.map (Group.ofRoutes seed)
  repetitions : ∀ m ∈ allRepeatedMessages routes, ⟨.warning, .blueprint, m⟩ ∈ log
  endpoints : List.Forall₂
    (EndpointTypes.For fun node t => TypeExpr.ofNode (keys s.schemas) node = .ok t)
    s.operations b.endpoints

/-- **What a blueprint holds.** -/
theorem contents (h : (s.blueprint config seed).outcome = (.ok b, log)) :
    ∃ ds routes, Contents s seed b log ds routes ∧
      ∃ q, (declareAll s.schemas).result ⟨[], []⟩ =
        (.ok (Entries.ofList (ds.map Declared.entry)), q) := by
  obtain ⟨expansions, h⟩ := outcome_eq_iff.mp h
  obtain ⟨table, inner, routes, endpoints, htable, hroutes, hendpoints, rfl⟩ := of_build h
  obtain ⟨-, ds, hds, rfl, hcollisions⟩ := of_declareAll htable
  obtain ⟨hlog, hendpoints⟩ := Yields.mapM (fun _ _ => endpointTypes_yields) _ _ _ hendpoints
  refine ⟨ds, routes, ⟨hds, rfl, fun m hm => ?_, hroutes, rfl, fun m hm => ?_, hendpoints⟩, inner,
    htable⟩
  · exact hlog.subset (List.mem_append_left _ (hcollisions m hm))
  · exact hlog.subset (List.mem_append_right _ (List.mem_map_of_mem hm))

end Blueprint

end ApiMock
