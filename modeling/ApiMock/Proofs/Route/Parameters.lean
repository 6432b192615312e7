import ApiMock.Proofs.Document.JsonValues
import ApiMock.Proofs.Naming.Placeholders
import ApiMock.Proofs.Route.Groups
/-!
# Route — the parameters of a route

The path parameters of a route are the names that its path shows, and behind
them the declared ones that it does not show (`names_pathParamsOf`), each of
these once. The last declared one of a name has the say about the type. The
query parameters are the declared ones as they are, so that they have
different names exactly if these do.
-/

namespace ApiMock

open Entries Sequence
open TypeScript (TypeExpr)

namespace Route

variable {path method name : String} {operation document shared : Data} {o : Operation} {r : Route}
  {p : PathParam}

/-! ## Names -/

/-- The names of the declared path parameters that the path does not show. -/
def hiddenNames (o : Operation) : List String :=
  (keys (declaredPathParams o)).filter fun name => !(Naming.placeholders o.path).contains name

/-- The declared names, each where it comes first. -/
theorem keys_declaredPathParams :
    keys (declaredPathParams o) = ((o.parametersIn "path").map Parameter.name).eraseDups := by
  rw [declaredPathParams, keys_ofList, keys, List.map_map]
  rfl

theorem mem_keys_declaredPathParams :
    name ∈ keys (declaredPathParams o) ↔ ∃ q ∈ o.parametersIn "path", q.name = name := by
  rw [keys_declaredPathParams, List.mem_eraseDups, List.mem_map]

theorem mem_hiddenNames : name ∈ hiddenNames o ↔
    (∃ q ∈ o.parametersIn "path", q.name = name) ∧ name ∉ Naming.placeholders o.path := by
  rw [hiddenNames, List.mem_filter, mem_keys_declaredPathParams]
  simp

/-- **The path parameters are those that the path shows, then the others.** -/
theorem names_pathParamsOf (o : Operation) :
    (pathParamsOf o).map PathParam.name = Naming.placeholders o.path ++ hiddenNames o := by
  rw [pathParamsOf, List.map_map]
  refine (List.map_congr_left fun name _ => ?_).trans (List.map_id' _)
  -- whether it is declared or not, a parameter keeps its name
  rw [Function.comp_apply]
  cases (declaredPathParams o).lookup name with
  | none => rfl
  | some q => rfl

/-- These are all placeholders and all declared names. -/
theorem mem_names_pathParamsOf : name ∈ (pathParamsOf o).map PathParam.name ↔
    name ∈ Naming.placeholders o.path ∨ ∃ q ∈ o.parametersIn "path", q.name = name := by
  rw [names_pathParamsOf, List.mem_append, mem_hiddenNames]
  by_cases hshown : name ∈ Naming.placeholders o.path
  · simp [hshown]
  · simp [hshown]

/-- **None of them comes twice.** -/
theorem nodup_names_pathParamsOf (o : Operation) : ((pathParamsOf o).map PathParam.name).Nodup := by
  have hdeclared : (keys (declaredPathParams o)).Nodup := by
    rw [keys_declaredPathParams]
    exact Distinct.nodup_eraseDups _
  rw [names_pathParamsOf]
  refine (Distinct.nodup_eraseDups _).append (hdeclared.filter _) fun name hshown hhidden => ?_
  exact (mem_hiddenNames.mp hhidden).2 hshown

/-! ## Types -/

/-- A path parameter has the type that the last declared one of its name has,
or it is a text if none is declared. -/
inductive Typed (declared : List Parameter) (p : PathParam) : Prop where
  | declared {before after : List Parameter} {q : Parameter}
    (split : declared = before ++ q :: after) (name : q.name = p.name)
    (last : ∀ q' ∈ after, q'.name ≠ p.name) (type : p.type = TypeExpr.ofForm q.schema)
  | undeclared (none : ∀ q ∈ declared, q.name ≠ p.name) (type : p.type = .keyword .string)

/-- **Every path parameter is typed as it is declared.** -/
theorem typed_of_mem_pathParamsOf (hp : p ∈ pathParamsOf o) : Typed (o.parametersIn "path") p := by
  obtain ⟨name, -, rfl⟩ := List.mem_map.mp hp
  cases hfound : (declaredPathParams o).lookup name with
  | none =>
    refine .undeclared (fun q hq hname => ?_) rfl
    exact lookup_eq_none_iff.mp hfound (mem_keys_declaredPathParams.mpr ⟨q, hq, hname⟩)
  | some q =>
    obtain ⟨before, after, hsplit, hafter⟩ := lookup_ofList_eq_some.mp hfound
    obtain ⟨front, back, hdeclared, -, hback⟩ := List.map_eq_append_iff.mp hsplit
    obtain ⟨q', rest, rfl, hq', rfl⟩ := List.map_eq_cons_iff.mp hback
    obtain ⟨hname, rfl⟩ := Prod.mk.inj hq'
    refine .declared hdeclared hname (fun other hother heq => hafter ?_) rfl
    rw [keys, List.map_map]
    exact List.mem_map.mpr ⟨other, hother, heq⟩

/-! ## The parameters of a route -/

/-- What holds of a path parameter by its name, by the names of the operation. -/
theorem exists_pathParam_iff (h : classify o = .ok r) {P : String → Prop} :
    (∃ p ∈ r.pathParams, P p.name) ↔
      ∃ name, (name ∈ Naming.placeholders o.path ∨ ∃ q ∈ o.parametersIn "path", q.name = name) ∧
        P name := by
  rw [(of_classify h).pathParams]
  constructor
  · rintro ⟨p, hp, hname⟩
    exact ⟨p.name, mem_names_pathParamsOf.mp (List.mem_map_of_mem hp), hname⟩
  · rintro ⟨name, hplaced, hname⟩
    obtain ⟨p, hp, rfl⟩ := List.mem_map.mp (mem_names_pathParamsOf.mpr hplaced)
    exact ⟨p, hp, hname⟩

theorem names_queryParamsOf (o : Operation) :
    (queryParamsOf o).map QueryParam.name = (o.parametersIn "query").map Parameter.name := by
  rw [queryParamsOf, List.map_map]
  rfl

/-- **No path parameter is lost or comes twice, nor does a query parameter
whose name and place are written as texts.** The path parameters are the
distinct names that the path shows, in their order, and then the other
declared ones in theirs; each has the type that is declared. The query
parameters are the declared ones, and their names differ unless an entry is
listed whose name or place is written in bytes, as no JSON document does. -/
theorem parameters_kept (h : Operation.parse path method operation document shared = .ok o)
    (hr : classify o = .ok r) :
    (r.pathParams.map PathParam.name).Nodup ∧
      (∃ shown, Naming.PathShows o.path shown ∧ r.pathParams.map PathParam.name =
        shown.eraseDups ++ ((o.parametersIn "path").map Parameter.name).eraseDups.filter
          fun name => name ∉ shown) ∧
      (∀ p ∈ r.pathParams, Typed (o.parametersIn "path") p) ∧
      r.queryParams =
        (o.parametersIn "query").map (fun q => ⟨q.name, TypeExpr.ofForm q.schema, q.required⟩) ∧
      (o.Apart ∧ (r.queryParams.map QueryParam.name).Nodup ∨
        ∃ d p, Lists operation shared d ∧ rawParameter document.orEmpty d = .ok (some p) ∧
          p.InBytes) ∧
      (operation.IsJson → document.IsJson → shared.IsJson →
        o.Apart ∧ (r.queryParams.map QueryParam.name).Nodup) := by
  have hpath := (of_classify hr).pathParams
  have hquery := (of_classify hr).queryParams
  have hapart : o.Apart → o.Apart ∧ (r.queryParams.map QueryParam.name).Nodup := by
    intro hapart
    rw [hquery, names_queryParamsOf]
    exact ⟨hapart, hapart.nodup_names "query"⟩
  rw [hpath]
  refine ⟨nodup_names_pathParamsOf o, ⟨_, Naming.pathShows_shownNames _, ?_⟩,
    fun p hp => typed_of_mem_pathParamsOf hp, hquery, (Operation.apart_or h).imp_left hapart,
    fun hop hdoc hs => hapart (Operation.apart_of_isJson hop hdoc hs h)⟩
  rw [names_pathParamsOf, hiddenNames, keys_declaredPathParams, Naming.placeholders_eq]
  congr 1
  refine List.filter_congr fun name _ => ?_
  rw [List.contains_eq_mem, decide_not]
  simp only [List.mem_eraseDups]

/-- An operation and its route, by what is read off both. -/
theorem exists_route {α : Type} {f : Operation → Route → α} {x : α}
    (h : ((Operation.parse path method operation document shared).toOption.bind fun o =>
      (classify o).toOption.map (f o)) = some x) :
    ∃ o r, Operation.parse path method operation document shared = .ok o ∧ classify o = .ok r ∧
      f o r = x := by
  obtain ⟨o, ho, hrouted⟩ := of_toOption_bind h
  obtain ⟨r, hr, hread⟩ := of_toOption_map hrouted
  exact ⟨o, r, ho, hr, hread⟩

/-- A parameter of this name in this place. -/
def listed (name : Data) (location type : String) : Data :=
  .object [("name", name), ("in", .str location), ("schema", .object [("type", .str type)])]

/-- An operation that declares a shown name in two places, one name that is
not shown, and one that overrides. -/
def petOfShop : Data := .object [("parameters", .list [listed (.str "pet") "path" "integer",
  listed (.str "limit") "query" "integer", listed (.str "pet") "query" "boolean",
  listed (.str "pet") "header" "string"])]

/-- The parameters of the path it is on. -/
def ofShop : Data := .list [listed (.str "limit") "query" "string",
  listed (.str "tenant") "path" "string", listed (.str "pet") "path" "string"]

/-- The names that are shown come first, the limit is the one of the operation,
and the header is left out. -/
theorem petOfShop_kept : ∃ o r,
    Operation.parse "/shops/{shop}/pets/{pet}/of/{shop}" "get" petOfShop .null ofShop = .ok o ∧
      classify o = .ok r ∧
      r.pathParams.map (fun p => (p.name, p.type.render)) =
        [("shop", "string"), ("pet", "number"), ("tenant", "string")] ∧
      r.queryParams.map (fun q => (q.name, q.type.render)) =
        [("limit", "number"), ("pet", "boolean")] ∧
      (r.pathParams.map PathParam.name).Nodup ∧
      (∀ p ∈ r.pathParams, Typed (o.parametersIn "path") p) ∧
      o.Apart ∧ (r.queryParams.map QueryParam.name).Nodup := by
  have hmade : (Operation.parse "/shops/{shop}/pets/{pet}/of/{shop}" "get" petOfShop .null
      ofShop).toOption.bind (fun o => (classify o).toOption.map fun r =>
        (r.pathParams.map (fun p => (p.name, p.type.render)),
          r.queryParams.map fun q => (q.name, q.type.render))) =
      some ([("shop", "string"), ("pet", "number"), ("tenant", "string")],
        [("limit", "number"), ("pet", "boolean")]) := by decide +kernel
  obtain ⟨o, r, ho, hr, hnames⟩ := exists_route hmade
  obtain ⟨hpath, hquery⟩ := Prod.mk.inj hnames
  have hlisted : ∀ name location type, (listed (.str name) location type).IsJson := by
    intro name location type
    simp [listed, Data.object, Data.str]
  have hop : petOfShop.IsJson := by
    have hown : (Data.list [listed (.str "pet") "path" "integer",
        listed (.str "limit") "query" "integer", listed (.str "pet") "query" "boolean",
        listed (.str "pet") "header" "string"]).IsJson := .list (by simp [hlisted])
    simp [petOfShop, Data.object, hown]
  have hshared : ofShop.IsJson := .list (by simp [hlisted])
  obtain ⟨hnodup, -, htyped, -, -, hapart⟩ := parameters_kept ho hr
  exact ⟨o, r, ho, hr, hpath, hquery, hnodup, htyped, hapart hop .null hshared⟩

/-- An operation whose limit is written in bytes. -/
def limitInBytes : Data := .object [("parameters",
  .list [listed (.scalar (.bytes [108, 105, 109, 105, 116])) "query" "integer"])]

/-- It does not override the limit of the path, which is a text: the route has
two query parameters of one name. -/
theorem limit_doubled : ∃ o r, Operation.parse "/pets" "get" limitInBytes .null
      (.list [listed (.str "limit") "query" "string"]) = .ok o ∧ classify o = .ok r ∧
    r.queryParams.map QueryParam.name = ["limit", "limit"] ∧
    ¬ (r.queryParams.map QueryParam.name).Nodup := by
  have hmade : (Operation.parse "/pets" "get" limitInBytes .null
      (.list [listed (.str "limit") "query" "string"])).toOption.bind (fun o =>
        (classify o).toOption.map fun r => r.queryParams.map QueryParam.name) =
      some ["limit", "limit"] := by decide +kernel
  obtain ⟨o, r, ho, hr, hnames⟩ := exists_route hmade
  exact ⟨o, r, ho, hr, hnames, by rw [hnames]; decide⟩

end Route

end ApiMock
