import ApiMock.Proofs.Naming.Arguments
import ApiMock.Proofs.Route.Parameters
import ApiMock.Proofs.Route.Scope
/-!
# Route — when arguments have names of their own

The path parameters of a route have different names, but it is under what is
made of these that a method takes them, next to the query and the body, which
have names of their own. So no argument is declared twice exactly if no two
names of path parameters give one argument name and none gives that of a query
or a body that is there (`nodup_arguments_iff`).
-/

namespace ApiMock

open TypeScript

namespace Route

variable {o : Operation} {r : Route} {name : String}

/-- The path parameters have arguments of their own: for no two of them one is
made, and none takes that of the query or the body. -/
structure OwnArguments (r : Route) : Prop where
  path : ∀ p ∈ r.pathParams, ∀ q ∈ r.pathParams, p.name ≠ q.name → ¬ Naming.Meets p.name q.name
  query : r.queryParams ≠ [] → ∀ p ∈ r.pathParams, ¬ Naming.Takes queryName p.name
  body : r.hasBody = true → ∀ p ∈ r.pathParams, ¬ Naming.Takes bodyName p.name

/-- Which path parameters have the arguments of the query and the body. -/
theorem identifier_eq_queryName_iff :
    Naming.identifier name = queryName ↔ Naming.Takes queryName name :=
  Naming.identifier_eq_word_iff (by decide) (by decide)

theorem identifier_eq_bodyName_iff :
    Naming.identifier name = bodyName ↔ Naming.Takes bodyName name :=
  Naming.identifier_eq_word_iff (by decide) (by decide)

/-- The names of the query and the body, as far as these are there. -/
def fixedNames (r : Route) : List String :=
  (if r.queryParams.isEmpty then [] else [queryName]) ++ if r.hasBody then [bodyName] else []

theorem nodup_fixedNames : r.fixedNames.Nodup := by
  rw [fixedNames]
  split_ifs <;> decide

theorem mem_fixedNames : name ∈ r.fixedNames ↔
    (r.queryParams ≠ [] ∧ name = queryName) ∨ (r.hasBody = true ∧ name = bodyName) := by
  rw [fixedNames, List.mem_append]
  split_ifs with hquery hbody hbody <;> simp_all

theorem loggedNames_eq : r.loggedNames =
    (r.pathParams.map PathParam.name).map Naming.identifier ++ r.fixedNames := by
  rw [loggedNames, List.append_assoc, List.map_map]
  rfl

/-- A method logs something under the name of the body if the route has a body
or a path parameter takes that name. -/
theorem bodyName_mem_loggedNames_iff : bodyName ∈ r.loggedNames ↔
    r.hasBody = true ∨ ∃ p ∈ r.pathParams, Naming.Takes bodyName p.name := by
  have hdiffer : bodyName ≠ queryName := by decide
  have hpath : bodyName ∈ (r.pathParams.map PathParam.name).map Naming.identifier ↔
      ∃ p ∈ r.pathParams, Naming.Takes bodyName p.name := by
    rw [List.map_map, List.mem_map]
    exact exists_congr fun p => and_congr_right fun _ => identifier_eq_bodyName_iff
  rw [loggedNames_eq, List.mem_append, hpath, mem_fixedNames, or_comm]
  simp [hdiffer]

/-- Logged names are distinct if the path parameters have arguments of their
own, and only then. -/
theorem nodup_loggedNames_iff (h : classify o = .ok r) : r.loggedNames.Nodup ↔ r.OwnArguments := by
  have hnames : (r.pathParams.map PathParam.name).Nodup := by
    rw [(of_classify h).pathParams]
    exact nodup_names_pathParamsOf o
  rw [loggedNames_eq, List.nodup_append, List.nodup_map_iff_inj_on hnames]
  constructor
  · rintro ⟨hpath, -, hfixed⟩
    have hother : ∀ p ∈ r.pathParams, ∀ word ∈ r.fixedNames, Naming.identifier p.name ≠ word := by
      intro p hp word hword
      exact hfixed _ (List.mem_map_of_mem (List.mem_map_of_mem hp)) _ hword
    refine ⟨fun p hp q hq hne hmeets => hne ?_, fun hquery p hp htakes => ?_,
      fun hbody p hp htakes => ?_⟩
    · exact hpath _ (List.mem_map_of_mem hp) _ (List.mem_map_of_mem hq)
        (Naming.identifier_eq_iff.mpr (.inr hmeets))
    · exact hother p hp _ (mem_fixedNames.mpr (.inl ⟨hquery, rfl⟩))
        (identifier_eq_queryName_iff.mpr htakes)
    · exact hother p hp _ (mem_fixedNames.mpr (.inr ⟨hbody, rfl⟩))
        (identifier_eq_bodyName_iff.mpr htakes)
  · intro hown
    refine ⟨fun a ha b hb heq => ?_, nodup_fixedNames, fun a ha word hword heq => ?_⟩
    · obtain ⟨p, hp, rfl⟩ := List.mem_map.mp ha
      obtain ⟨q, hq, rfl⟩ := List.mem_map.mp hb
      by_contra hne
      rcases Naming.identifier_eq_iff.mp heq with hsame | hmeets
      · exact hne hsame
      · exact hown.path p hp q hq hne hmeets
    · obtain ⟨_, hname, rfl⟩ := List.mem_map.mp ha
      obtain ⟨p, hp, rfl⟩ := List.mem_map.mp hname
      rcases mem_fixedNames.mp hword with ⟨hquery, rfl⟩ | ⟨hbody, rfl⟩
      · exact hown.query hquery p hp (identifier_eq_queryName_iff.mp heq)
      · exact hown.body hbody p hp (identifier_eq_bodyName_iff.mp heq)

/-! ## By the names of the parameters -/

/-- Identifiers are kept as they are, so only two names are in the way. -/
theorem ownArguments_iff_of_identifiers (h : ∀ p ∈ r.pathParams, Naming.isIdentifier p.name) :
    r.OwnArguments ↔ (r.queryParams ≠ [] → ∀ p ∈ r.pathParams, p.name ≠ queryName) ∧
      (r.hasBody = true → ∀ p ∈ r.pathParams, p.name ≠ bodyName) := by
  have htakes : ∀ p ∈ r.pathParams, ∀ word, Naming.Takes word p.name ↔ p.name = word :=
    fun p hp word => or_iff_left fun hnot => hnot.1 (h p hp)
  constructor
  · intro hown
    refine ⟨fun hquery p hp heq => ?_, fun hbody p hp heq => ?_⟩
    · exact hown.query hquery p hp (.inl heq)
    · exact hown.body hbody p hp (.inl heq)
  · rintro ⟨hquery, hbody⟩
    refine ⟨fun p hp q hq _ hmeets => ?_, fun hq p hp hword => ?_, fun hb p hp hword => ?_⟩
    · cases hmeets with
      | both hp' => exact hp' (h p hp)
      | left _ hq' => exact hq' (h q hq)
      | right hp' => exact hp' (h p hp)
    · exact hquery hq p hp ((htakes p hp _).mp hword)
    · exact hbody hb p hp ((htakes p hp _).mp hword)

/-- Names whose camel forms differ, also from the two fixed names, have
arguments of their own. -/
theorem ownArguments_of_camel (hnodup : (r.pathParams.map fun p => Naming.camel p.name).Nodup)
    (hfixed : ∀ p ∈ r.pathParams, Naming.camel p.name ∉ r.fixedNames) : r.OwnArguments := by
  have hwords : Naming.camel queryName = queryName ∧ Naming.camel bodyName = bodyName := by decide
  have hform : ∀ p ∈ r.pathParams, ∀ word, Naming.camel word = word → Naming.Takes word p.name →
      Naming.camel p.name = word := by
    rintro p hp word hword (heq | ⟨-, heq⟩)
    · rw [heq, hword]
    · exact heq
  refine ⟨fun p hp q hq hne hmeets => hne ?_, fun hquery p hp htakes => ?_,
    fun hbody p hp htakes => ?_⟩
  · have heq := Naming.identifier_eq_iff.mpr (.inr hmeets)
    have hcamel : Naming.camel p.name = Naming.camel q.name := by
      rw [← Naming.camel_identifier, heq, Naming.camel_identifier]
    rw [List.inj_on_of_nodup_map hnodup hp hq hcamel]
  · exact hfixed p hp (mem_fixedNames.mpr (.inl ⟨hquery, hform p hp _ hwords.1 htakes⟩))
  · exact hfixed p hp (mem_fixedNames.mpr (.inr ⟨hbody, hform p hp _ hwords.2 htakes⟩))

/-- **When no argument of a method is declared twice.** The arguments are what
is made of the names of the path parameters, then the query and the body if
these are there. They are distinct exactly if the path parameters have arguments
of their own. Names that are identifiers have, unless one of them is that of a
query or a body that is there; other names have if their camel forms differ, and
do so from these. -/
theorem nodup_arguments_iff (h : classify o = .ok r) :
    (readArguments r.signature).map Prod.fst =
        (r.pathParams.map PathParam.name).map Naming.identifier ++ r.fixedNames ∧
      (((readArguments r.signature).map Prod.fst).Nodup ↔ r.OwnArguments) ∧
      ((∀ p ∈ r.pathParams, Naming.isIdentifier p.name) →
        (((readArguments r.signature).map Prod.fst).Nodup ↔
          (r.queryParams ≠ [] → ∀ p ∈ r.pathParams, p.name ≠ queryName) ∧
            (r.hasBody = true → ∀ p ∈ r.pathParams, p.name ≠ bodyName))) ∧
      ((r.pathParams.map fun p => Naming.camel p.name).Nodup →
        (∀ p ∈ r.pathParams, Naming.camel p.name ∉ r.fixedNames) →
          ((readArguments r.signature).map Prod.fst).Nodup) := by
  have hread : (readArguments r.signature).map Prod.fst = r.loggedNames := by
    rw [(flat_of_classify h).readArguments_signature, List.map_map]
    exact map_name_arguments
  have hiff := nodup_loggedNames_iff h
  rw [hread]
  refine ⟨loggedNames_eq, hiff, fun hnames => ?_, fun hnodup hfixed => ?_⟩
  · rw [hiff, ownArguments_iff_of_identifiers hnames]
  · exact hiff.mpr (ownArguments_of_camel hnodup hfixed)

/-- An operation with a body that declares these query parameters. -/
def posting (names : List String) : Data := .object [
  ("parameters", .list (names.map fun name => listed (.str name) "query" "string")),
  ("requestBody", .object [("content",
    .object [("application/json", .object [("schema", .object [("type", .str "object")])])])])]

/-- Three names that are no identifiers, a query and a body: five arguments. -/
theorem visit_arguments : ∃ o r,
    Operation.parse "/pets/{pet-id}/visits/{visit.id}/{2nd}" "post" (posting ["dry-run"]) .null
        .null = .ok o ∧ classify o = .ok r ∧
      (readArguments r.signature).map Prod.fst = ["petId", "visitId", "_2nd", "params", "body"] ∧
      ((readArguments r.signature).map Prod.fst).Nodup := by
  have hmade : (Operation.parse "/pets/{pet-id}/visits/{visit.id}/{2nd}" "post"
      (posting ["dry-run"]) .null .null).toOption.bind (fun o =>
        (classify o).toOption.map fun r => (r.pathParams.map PathParam.name, r.fixedNames)) =
      some (["pet-id", "visit.id", "2nd"], ["params", "body"]) := by decide +kernel
  obtain ⟨o, r, ho, hr, hread⟩ := exists_route hmade
  obtain ⟨hnames, hfixed⟩ := Prod.mk.inj hread
  obtain ⟨harguments, -, -, hnodup⟩ := nodup_arguments_iff hr
  rw [hnames, hfixed] at harguments
  refine ⟨o, r, ho, hr, harguments.trans (by decide), hnodup ?_ ?_⟩
  · have hcamel : (r.pathParams.map fun p => Naming.camel p.name) =
        (r.pathParams.map PathParam.name).map Naming.camel := by
      rw [List.map_map]
      rfl
    rw [hcamel, hnames]
    decide
  · intro p hp
    have hin : p.name ∈ ["pet-id", "visit.id", "2nd"] := hnames ▸ List.mem_map_of_mem hp
    have hall : ∀ name ∈ ["pet-id", "visit.id", "2nd"],
        Naming.camel name ∉ ["params", "body"] := by decide
    rw [hfixed]
    exact hall p.name hin

/-- An argument is declared twice where one name is what is coined for another,
and where a name is that of the body. -/
theorem arguments_repeated :
    (∃ o r, Operation.parse "/owners/{owner-id}/pets/{ownerId}" "get" (.object []) .null .null =
        .ok o ∧ classify o = .ok r ∧
      (readArguments r.signature).map Prod.fst = ["ownerId", "ownerId"]) ∧
    (∃ o r, Operation.parse "/files/{body}" "put" (posting []) .null .null = .ok o ∧
      classify o = .ok r ∧ (readArguments r.signature).map Prod.fst = ["body", "body"]) ∧
    ¬ ["ownerId", "ownerId"].Nodup ∧ ¬ ["body", "body"].Nodup :=
  ⟨exists_route (by decide +kernel), exists_route (by decide +kernel), by decide, by decide⟩

end Route

end ApiMock
