import ApiMock.Blueprint.Build
import ApiMock.Proofs.TypeScript.Equations
import ApiMock.Proofs.TypeScript.Transparent
/-!
# Blueprint — the way nodes are resolved, taken out

A blueprint needs the resolution of nodes in a few places: the properties
and the nodes of definitions, the parameters, bodies and responses of
operations. Here the way they are resolved is an argument. The blueprint
looks at nothing but the types, so two ways that are alike in the types
make alike blueprints.

A blueprint is made in one pass, and what the pass has expanded is shared
by all nodes that are resolved in it. It could as well be made by resolving
every node in a pass of its own (`separately`): the types would be the
same, since none of them depends on what is kept.
-/

namespace ApiMock

namespace Blueprint

open TypeScript Entries

section

variable (resolveIn : List String → Schema → Resolving Resolution)

/-- The type of a schema in an operation. -/
def typeOfWith (s : Schema) : Resolving TypeExpr := do
  return (← resolveIn [] s).type

/-- A field of a request for each of some parameters. -/
def requestFieldsWith (required : Parameter → Bool) (ps : List Parameter) :
    Resolving (List (PropertyKey × TypeExpr)) :=
  ps.mapM fun p => do return (⟨p.name, required p⟩, ← typeOfWith resolveIn p.schema)

/-- The type of the request of an operation. -/
def requestTypeWith (o : Operation) : Resolving (Option RequestType) :=
  match o.body with
  | none => pure none
  | some body => do
    let pathFields ← requestFieldsWith resolveIn (fun _ => true) (o.parametersIn "path")
    let queryFields ← requestFieldsWith resolveIn (·.required) (o.parametersIn "query")
    let body ← (body.content.lookup jsonContent).mapM (typeOfWith resolveIn)
    return some ⟨pathFields, queryFields, body⟩

/-- The type of the response of an operation. -/
def responseTypeWith (o : Operation) : Resolving (Option TypeExpr) :=
  match o.responses.find? fun r => r.status.toList.head? = some '2' with
  | none => pure none
  | some r => (r.content.lookup jsonContent).mapM (typeOfWith resolveIn)

/-- The types of an operation. -/
def endpointTypesWith (o : Operation) : Resolving EndpointTypes := do
  let request ← requestTypeWith resolveIn o
  let response ← responseTypeWith resolveIn o
  return ⟨Naming.pascal o.id, request, response⟩

/-- The declarations of all definitions, by canonical name. -/
def declareTable (defs : Definitions) : Resolving (List (String × Declared)) :=
  declareAllWith defs (declareWith resolveIn)

/-- The blueprint of a specification. -/
def buildWith (s : Spec) (config : Option Config) (seed : Option Seed) : Resolving Blueprint := do
  let table ← declareTable resolveIn s.schemas
  let routes ← (s.routes : Except Failure (List (String × List Route)))
  let groups ← routes.mapM fun g => group seed g.1 g.2
  let endpoints ← s.operations.mapM (endpointTypesWith resolveIn)
  return ⟨s.info, s.servers, config.getD Config.defaults, table.map fun e => e.2.declaration,
    endpoints, groups⟩

end

/-- The program makes the blueprint by resolving in one pass. -/
theorem build_eq_buildWith {s : Spec} {config : Option Config} {seed : Option Seed} :
    build s config seed = buildWith (resolve s.schemas) s config seed := by
  have hdeclare : declareAll s.schemas = declareTable (resolve s.schemas) s.schemas := by
    rw [declareTable, show declareWith (resolve s.schemas) = declare s.schemas from
      funext fun name => funext fun node => declare_eq_with.symm]
    rfl
  rw [build, hdeclare]
  rfl

/-! ## Alike in the types -/

/-- Two ways of resolving are alike on JSON-valued nodes, while none but
`known` definitions are being expanded. -/
def AlikeOn (known : List String) (x y : List String → Schema → Resolving Resolution) : Prop :=
  ∀ seen node, (∀ k ∈ seen, k ∈ known) → node.JsonValued →
    Alike SameType (x seen node) (y seen node)

section

variable {known : List String} {x y : List String → Schema → Resolving Resolution}

/-- The declarations of a definition are alike. -/
theorem declareWith_alike (h : AlikeOn known x y) {name : String} {node : Schema}
    (hname : name ∈ known) (hnode : node.JsonValued) :
    Alike Eq (declareWith x name node) (declareWith y name node) := by
  have hseen : ∀ k ∈ [name], k ∈ known := by
    intro k hk
    rw [List.mem_singleton.mp hk]
    exact hname
  refine declareWith_alike_of_within fun s hs => h [name] s hseen ?_
  exact fun v hv => hnode v (hs.has hv)

/-- And so are the tables of the declarations. -/
theorem declareTable_alike {defs : Definitions} (h : AlikeOn (keys defs) x y)
    (hdefs : ∀ d ∈ defs, d.2.JsonValued) :
    Alike Eq (declareTable x defs) (declareTable y defs) := by
  refine .foldlM fun d hd table => ?_
  have hdeclare := declareWith_alike h (List.mem_map_of_mem hd) (hdefs d hd)
  refine hdeclare.bind ?_
  rintro declaration _ rfl
  cases table.lookup declaration.name with
  | none => exact .pure rfl
  | some earlier =>
    exact Alike.bind (.warnings .types [collisionMessage earlier.source d.1 declaration.name])
      fun _ _ _ => .pure rfl

/-- The types in an operation are alike. -/
theorem typeOfWith_alike (h : AlikeOn known x y) {s : Schema} (hs : s.JsonValued) :
    Alike Eq (typeOfWith x s) (typeOfWith y s) :=
  (h [] s (by simp) hs).bind fun _ _ hr => .pure hr

theorem requestFieldsWith_alike (h : AlikeOn known x y) {required : Parameter → Bool}
    {ps : List Parameter} (hps : ∀ p ∈ ps, p.schema.JsonValued) :
    Alike Eq (requestFieldsWith x required ps) (requestFieldsWith y required ps) :=
  .mapM fun p hp => (typeOfWith_alike h (hps p hp)).bind fun t t' ht => .pure (by rw [ht])

theorem content_alike (h : AlikeOn known x y) {content : List (String × Schema)}
    (hcontent : ∀ e ∈ content, e.2.JsonValued) :
    Alike Eq ((content.lookup jsonContent).mapM (typeOfWith x))
      ((content.lookup jsonContent).mapM (typeOfWith y)) :=
  .option fun _ hs => typeOfWith_alike h (hcontent _ (mem_of_lookup hs))

theorem requestTypeWith_alike (h : AlikeOn known x y) {o : Operation} (ho : o.JsonValued) :
    Alike Eq (requestTypeWith x o) (requestTypeWith y o) := by
  have hin : ∀ location, ∀ p ∈ o.parametersIn location, p.schema.JsonValued :=
    fun location p hp => ho.parameters p (List.mem_of_mem_filter hp)
  rw [requestTypeWith, requestTypeWith]
  cases hbody : o.body with
  | none => exact .pure rfl
  | some body =>
    refine (requestFieldsWith_alike h (hin "path")).bind ?_
    rintro pathFields _ rfl
    refine (requestFieldsWith_alike h (hin "query")).bind ?_
    rintro queryFields _ rfl
    refine (content_alike h (ho.body body hbody)).bind ?_
    rintro type _ rfl
    exact .pure rfl

theorem responseTypeWith_alike (h : AlikeOn known x y) {o : Operation} (ho : o.JsonValued) :
    Alike Eq (responseTypeWith x o) (responseTypeWith y o) := by
  rw [responseTypeWith, responseTypeWith]
  cases hfind : o.responses.find? fun r => r.status.toList.head? = some '2' with
  | none => exact .pure rfl
  | some r => exact content_alike h (ho.responses r (List.mem_of_find?_eq_some hfind))

theorem endpointTypesWith_alike (h : AlikeOn known x y) {o : Operation} (ho : o.JsonValued) :
    Alike Eq (endpointTypesWith x o) (endpointTypesWith y o) := by
  refine (requestTypeWith_alike h ho).bind ?_
  rintro request _ rfl
  refine (responseTypeWith_alike h ho).bind ?_
  rintro response _ rfl
  exact .pure rfl

/-- A group does not look at the pass. -/
theorem group_alike {seed : Option Seed} {key : String} {routes : List Route} :
    Alike Eq (group seed key routes) (group seed key routes) :=
  (Alike.warnings .blueprint _).bind fun _ _ _ => .pure rfl

/-- **The blueprints are alike** if the ways of resolving are, for a
specification that is JSON-valued. -/
theorem buildWith_alike {s : Spec} {config : Option Config} {seed : Option Seed}
    (h : AlikeOn (keys s.schemas) x y) (hs : s.JsonValued) :
    Alike Eq (buildWith x s config seed) (buildWith y s config seed) := by
  refine (declareTable_alike h hs.schemas).bind ?_
  rintro table _ rfl
  refine (Alike.lift _).bind ?_
  rintro routes _ rfl
  refine (Alike.mapM fun g _ => group_alike).bind ?_
  rintro groups _ rfl
  refine (Alike.mapM fun o ho => endpointTypesWith_alike h (hs.operations o ho)).bind ?_
  rintro endpoints _ rfl
  exact .pure rfl

end

/-! ## One memo or many -/

open Resolving

/-- A step in a pass of its own: it starts without expansions and leaves
none behind. What it reports stays. -/
def separately {α : Type} (x : Resolving α) : Resolving α := ExceptT.mk fun p =>
  let (o, q) := x.result ⟨[], p.log⟩
  (o, { p with log := q.log })

/-- A step that is alike to another is alike to the other in its own pass. -/
theorem alike_separately {α β : Type} {R : α → β → Prop} {x : Resolving α} {y : Resolving β}
    (h : Alike R x y) : Alike R x (separately y) :=
  fun p q => h p ⟨[], q.log⟩

/-- The outcome of a whole pass is that of its step. -/
theorem logged_outcome {α : Type} {x : Resolving α} {log : List LogEntry} :
    (x.logged.run.run log).1 = (x.result ⟨[], log⟩).1 := rfl

/-- **A specification that is JSON-valued has one blueprint**, whether its
nodes are resolved in one pass or each in its own. -/
theorem blueprint_eq_separately {s : Spec} {config : Option Config} {seed : Option Seed}
    {log : List LogEntry} (hs : s.JsonValued) :
    ((s.blueprint config seed).run.run log).1 =
      ((buildWith (fun seen node => separately (resolve s.schemas seen node)) s config
        seed).logged.run.run log).1 := by
  have halike : AlikeOn (keys s.schemas) (resolve s.schemas)
      fun seen node => separately (resolve s.schemas seen node) := fun seen node hseen hnode =>
    alike_separately (resolve_alike (fun _ => Iff.rfl) hseen hseen hs.schemas hs.schemas hnode)
  rw [Spec.blueprint, logged_outcome, logged_outcome, build_eq_buildWith]
  exact (buildWith_alike halike hs).outcome_eq _ _

/-- **A declaration is settled by its node and by the names of the
definitions**, whatever these are and whatever is kept of them. -/
theorem declare_outcome_eq {defs other : Definitions} {name : String} {node : Schema}
    (hkeys : ∀ k, k ∈ keys defs ↔ k ∈ keys other) (hdefs : ∀ d ∈ defs, d.2.JsonValued)
    (hother : ∀ d ∈ other, d.2.JsonValued) (hname : name ∈ keys defs) (hnode : node.JsonValued)
    (p q : Pass) :
    ((declare defs name node).result p).1 = ((declare other name node).result q).1 := by
  have halike : AlikeOn (keys defs) (resolve defs) (resolve other) := fun seen s hseen hs =>
    resolve_alike hkeys hseen (fun k hk => (hkeys k).mp (hseen k hk)) hdefs hother hs
  rw [declare_eq_with, declare_eq_with]
  exact (declareWith_alike halike hname hnode).outcome_eq p q

/-- **The memo is transparent for types.** While only definitions are being
expanded and whatever is kept of them:

* a node that resolves has the type read off its tree among the names of
  the definitions, and one that fails lacks a text of a value that it
  enumerates or a definition does;
* a JSON-valued node among JSON-valued definitions resolves;
* the blueprint of a JSON document is what it would be if every node were
  resolved in a pass of its own;
* the declaration of a definition is the same among any definitions of the
  same names, from any pass. -/
theorem memo_transparent :
    (∀ defs seen node p o q, (∀ k ∈ seen, k ∈ keys defs) →
      (resolve defs seen node).result p = (o, q) →
        match o with
        | .ok r => TypeExpr.ofNode (keys defs) node = .ok r.type
        | .error e => ∃ v, (node.Enumerates v ∨ ∃ d ∈ defs, d.2.Enumerates v) ∧
            Literal.ofData v = .error e) ∧
    (∀ defs seen node p, (∀ k ∈ seen, k ∈ keys defs) → (∀ d ∈ defs, d.2.JsonValued) →
      node.JsonValued →
        ∃ r q, (resolve defs seen node).result p = (.ok r, q) ∧
          TypeExpr.ofNode (keys defs) node = .ok r.type) ∧
    (∀ document s config seed log, document.IsJson → Spec.parse document = .ok s →
      ((s.blueprint config seed).run.run log).1 =
        ((buildWith (fun seen node => separately (resolve s.schemas seen node)) s config
          seed).logged.run.run log).1) ∧
    (∀ defs other name node p q, (∀ k, k ∈ keys defs ↔ k ∈ keys other) →
      (∀ d ∈ defs, d.2.JsonValued) → (∀ d ∈ other, d.2.JsonValued) → name ∈ keys defs →
      node.JsonValued →
        ((declare defs name node).result p).1 = ((declare other name node).result q).1) := by
  refine ⟨fun defs seen node p o q hseen h => ?_, fun defs seen node p => resolve_isOk,
    fun document s config seed log hdoc hparse => ?_,
    fun defs other name node p q hkeys hdefs hother hname hnode => ?_⟩
  · cases o with
    | ok r => exact ofNode_of_resolve hseen h
    | error e => exact culprit_of_resolve h
  · exact blueprint_eq_separately (Spec.jsonValued_of_parse hdoc hparse)
  · exact declare_outcome_eq hkeys hdefs hother hname hnode p q

/-- A document that defines the ring. -/
def ringDocument : Data :=
  .map [(.str "info", .map [(.str "title", .scalar (.str "Ring")),
      (.str "version", .scalar (.str "1"))]),
    (.str "components", .map [(.str "schemas", .map [
      (.str "node", .map [(.str "type", .scalar (.str "object")),
        (.str "properties", .map [(.str "next",
          .map [(.str "$ref", .scalar (.str "#/components/schemas/link"))])])]),
      (.str "link", .map [(.str "$ref", .scalar (.str "#/components/schemas/node"))])])])]

/-- On the ring: from a memo that is wrong, while the alias is being
expanded, for its document, and among other definitions of its names. -/
theorem ring_transparent :
    TypeExpr.ofNode (keys ring) (.reference "node" none) = .ok (.named "Node") ∧
    (∃ r q, (resolve ring ["link"] (.reference "node" none)).result ⟨[], []⟩ = (.ok r, q) ∧
      TypeExpr.ofNode (keys ring) (.reference "node" none) = .ok r.type) ∧
    ((Spec.blueprint ⟨⟨"Ring", "1", none⟩, [], [], ring⟩ none none).run.run []).1 =
      ((buildWith (fun seen node => separately (resolve ring seen node))
        ⟨⟨"Ring", "1", none⟩, [], [], ring⟩ none none).logged.run.run []).1 ∧
    ((declare ring "link" (.reference "node" none)).result ⟨[], []⟩).1 =
      ((declare [("link", .unknown none), ("node", .unknown none)] "link"
        (.reference "node" none)).result ⟨[("node", .plain .any)], []⟩).1 := by
  have hring : ∀ d ∈ ring, d.2.JsonValued := by
    simp [ring, Schema.JsonValued, Schema.Enumerates]
  have hnode : (Schema.reference "node" none).JsonValued := by
    simp [Schema.JsonValued, Schema.Enumerates]
  have hother : ∀ d ∈ [("link", Schema.unknown none), ("node", .unknown none)],
      d.2.JsonValued := by
    simp [Schema.JsonValued, Schema.Enumerates]
  have hkeys : ∀ k, k ∈ keys ring ↔
      k ∈ keys [("link", Schema.unknown none), ("node", .unknown none)] := by
    simp [keys, ring, or_comm]
  obtain ⟨houtcome, hresolves, hblueprint, hdeclare⟩ := memo_transparent
  refine ⟨?_, ?_, ?_, ?_⟩
  · exact houtcome ring [] (.reference "node" none) ⟨[("node", .plain .any)], []⟩
      (.ok ⟨.named "Node", some (.plain .any)⟩) ⟨[("node", .plain .any)], []⟩ (by simp) (by cbv)
  · exact hresolves ring ["link"] (.reference "node" none) ⟨[], []⟩ (by decide) hring hnode
  · exact hblueprint ringDocument _ none none [] (by simp [ringDocument]) (by cbv)
  · exact hdeclare ring _ "link" (.reference "node" none) ⟨[], []⟩ _ hkeys hring hother
      (by decide) hnode

end Blueprint

end ApiMock
