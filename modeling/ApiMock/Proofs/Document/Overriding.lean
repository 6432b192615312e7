import ApiMock.Proofs.Document.JsonValues
/-!
# Document — parameters that override each other

What becomes of the parameters of a path and those of an operation on it, in one statement
(`Operation.parameters_overridden`): which entries count, where each name and place stands, what is
read of it, and when what is left is told apart by name and place.
-/

namespace ApiMock

open Entries Sequence

variable {path method : String} {operation document shared : Data} {o : Operation}

namespace Operation

/-- **The parameters of an operation override each other by name and place.** The ones of the path
come first. A name or place in bytes is not the same as the text that it is read as, so what is
left is told apart unless some are listed that differ in nothing else; in a JSON document all are
texts. -/
theorem parameters_overridden (h : parse path method operation document shared = .ok o) :
    ∃ own onPath onOperation before after, shared.elementsOrNone = .ok onPath ∧
      operation.field "parameters" = .ok own ∧ own.elementsOrNone = .ok onOperation ∧
      ListedAs document.orEmpty onPath before ∧ ListedAs document.orEmpty onOperation after ∧
      Overridden (before ++ after) o.parameters ∧
      (o.Apart ↔ ∀ j ∈ keys (before ++ after), ∀ k ∈ keys (before ++ after),
        j.texts = k.texts → j = k) ∧
      (operation.IsJson → document.IsJson → shared.IsJson → o.Apart ∧
        ∀ k ∈ keys (before ++ after), ∃ name location, k = ⟨.text name, .text location⟩) := by
  obtain ⟨own, onPath, onOperation, before, after, honPath, hown, honOperation, hbefore, hafter,
    hleft⟩ := exists_overridden h
  refine ⟨own, onPath, onOperation, before, after, honPath, hown, honOperation, hbefore, hafter,
    hleft, hleft.apart_iff, fun hop hdoc hs => ⟨apart_of_isJson hop hdoc hs h, fun k hk => ?_⟩⟩
  obtain ⟨e, he, rfl⟩ := List.mem_map.mp hk
  obtain ⟨-, entry, hentry, hraw⟩ := (hbefore.append hafter).origin he
  have hjson : entry.IsJson := by
    rcases List.mem_append.mp hentry with hentry | hentry
    · exact hs.elementsOrNone honPath entry hentry
    · exact (hop.field hown).elementsOrNone honOperation entry hentry
  have hnone : ¬ e.2.InBytes := hdoc.orEmpty.not_inBytes hjson hraw
  exact ((hbefore.append hafter).texts_or_inBytes he).resolve_right hnone

/-- The object of a parameter in the query. -/
def inQuery (name : Data) (type : String) : Data :=
  .object [("name", name), ("in", .str "query"), ("schema", .object [("type", .str type)])]

/-- A document in which a parameter can be referred to. -/
def limited : Data :=
  .object [("components", .object [("parameters", .object
    [("Limit", inQuery (.str "limit") "integer")])])]

/-- Parameters of a path: the first says no place, the second leads nowhere. -/
def onShop : Data :=
  .list [.object [("name", .str "limit"), ("schema", .object [("type", .str "string")])],
    .object [("$ref", .str "#/components/parameters/Gone")],
    .object [("name", .str "shop"), ("in", .str "path"),
      ("schema", .object [("type", .str "string")])]]

/-- An operation with parameters: the first has no name, the second is referred to. -/
def ofShopLimit : Data :=
  .object [("parameters", .list [.object [("in", .str "query")],
    .object [("$ref", .str "#/components/parameters/Limit")],
    .object [("name", .str "limit"), ("in", .str "header"),
      ("schema", .object [("type", .str "boolean")])]])]

/-- The limit stands where the path lists it, as what the operation says of it. -/
theorem shop_limit_overridden : ∃ o,
    parse "/shops/{shop}" "get" ofShopLimit limited onShop = .ok o ∧
      o.parameters.map (fun q => (q.name, q.location, q.schema.declared?)) =
        [("limit", "query", some "integer"), ("shop", "path", some "string"),
          ("limit", "header", some "boolean")] ∧
      o.Apart ∧ ∃ listed, Overridden listed o.parameters := by
  have hmade : (parse "/shops/{shop}" "get" ofShopLimit limited onShop).toOption.map
      (fun o => o.parameters.map fun q => (q.name, q.location, q.schema.declared?)) =
      some [("limit", "query", some "integer"), ("shop", "path", some "string"),
        ("limit", "header", some "boolean")] := by decide +kernel
  obtain ⟨o, ho, hparameters⟩ := of_toOption_map hmade
  have hlist : ∀ items : List Data, (∀ d ∈ items, d.IsJson) → (Data.list items).IsJson :=
    fun _ => .list
  have hop : ofShopLimit.IsJson := by simp [ofShopLimit, Data.object, Data.str, hlist]
  have hdoc : limited.IsJson := by simp [limited, inQuery, Data.object, Data.str]
  have hshared : onShop.IsJson := .list (by simp [Data.object, Data.str])
  obtain ⟨-, -, -, before, after, -, -, -, -, -, hleft, -, hjson⟩ := parameters_overridden ho
  exact ⟨o, ho, hparameters, (hjson hop hdoc hshared).1, before ++ after, hleft⟩

/-- The tag of a path is a text, and that of an operation on it the bytes of the same text: both
are left, and neither overrides the other. -/
theorem tag_not_overridden : ∃ o,
    parse "/pets" "get"
      (.object [("parameters", .list [inQuery (.scalar (.bytes [116, 97, 103])) "integer"])]) .null
      (.list [inQuery (.str "tag") "string"]) = .ok o ∧
    o.parameters.map (fun q => (q.name, q.location, q.schema.declared?)) =
      [("tag", "query", some "string"), ("tag", "query", some "integer")] ∧ ¬ o.Apart := by
  have hmade : (parse "/pets" "get"
      (.object [("parameters", .list [inQuery (.scalar (.bytes [116, 97, 103])) "integer"])]) .null
      (.list [inQuery (.str "tag") "string"])).toOption.map
      (fun o => o.parameters.map fun q => (q.name, q.location, q.schema.declared?)) =
      some [("tag", "query", some "string"), ("tag", "query", some "integer")] := by decide +kernel
  obtain ⟨o, ho, hparameters⟩ := of_toOption_map hmade
  refine ⟨o, ho, hparameters, fun hapart => ?_⟩
  have hplaces : o.parameters.map (fun q => (q.name, q.location)) =
      [("tag", "query"), ("tag", "query")] := by
    have hshort := congrArg (List.map fun t : String × String × Option String => (t.1, t.2.1))
      hparameters
    rw [List.map_map] at hshort
    exact hshort
  rw [Apart, hplaces] at hapart
  exact absurd hapart (by decide)

end Operation

end ApiMock
