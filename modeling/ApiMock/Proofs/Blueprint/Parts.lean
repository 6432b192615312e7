import ApiMock.Blueprint.Build
import ApiMock.Proofs.Naming.Slug
import ApiMock.Proofs.Route.Groups
import ApiMock.Proofs.TypeScript.Result
/-!
# Blueprint — its parts

A blueprint that is made was made stage by stage: the table of the
declarations, the groups, the types of the operations (`of_build`). Each
group has a canonical name, which no other group has and which gives its
files a slug.
-/

namespace ApiMock

open TypeScript Entries Resolving

/-- The group of some routes, with its seed records. -/
def Group.ofRoutes (seed : Option Seed) (g : String × List Route) : Group :=
  ⟨g.1, g.2, Seed.records seed g.1⟩

namespace Blueprint

variable {s : Spec} {config : Option Config} {seed : Option Seed} {b : Blueprint} {p q : Pass}
  {routes : List (String × List Route)} {log : List LogEntry}

/-- The messages for the repeated functions of all groups. -/
def allRepeatedMessages (routes : List (String × List Route)) : List String :=
  routes.flatMap fun g => repeatedMessages g.1 [] g.2

/-- The pass with warnings about repeated functions. -/
def repeated (routes : List (String × List Route)) (p : Pass) : Pass :=
  { p with log := p.log ++ (allRepeatedMessages routes).map (⟨.warning, .blueprint, ·⟩) }

/-- Making the groups reports the repeated functions and does not fail. -/
theorem result_groups :
    (routes.mapM fun g => group seed g.1 g.2).result p =
      (.ok (routes.map (Group.ofRoutes seed)), repeated routes p) := by
  induction routes generalizing p with
  | nil =>
    rw [repeated, allRepeatedMessages]
    simp
  | cons g rest ih =>
    have hgroup : (group seed g.1 g.2).result p =
        (.ok (Group.ofRoutes seed g),
          { p with log := p.log ++ (repeatedMessages g.1 [] g.2).map (⟨.warning, .blueprint, ·⟩) }) := by
      rw [group, result_bind_of_ok result_forM_warn]
      rfl
    rw [List.mapM_cons, result_bind_of_ok hgroup, result_bind_of_ok ih]
    simp [repeated, allRepeatedMessages]

/-- **A blueprint was made stage by stage.** -/
theorem of_build (h : (build s config seed).result p = (.ok b, q)) :
    ∃ table inner routes endpoints, (declareAll s.schemas).result p = (.ok table, inner) ∧
      s.routes = .ok routes ∧
      (s.operations.mapM (endpointTypes s.schemas)).result (repeated routes inner) =
        (.ok endpoints, q) ∧
      b = ⟨s.info, s.servers, config.getD Config.defaults, table.map fun e => e.2.declaration,
        endpoints, routes.map (Group.ofRoutes seed)⟩ := by
  obtain ⟨table, inner, htable, h⟩ := of_result_bind_ok h
  obtain ⟨routes, p₁, hroutes, h⟩ := of_result_bind_ok h
  rw [result_lift] at hroutes
  obtain ⟨hok, rfl⟩ := Prod.mk.inj hroutes
  rw [result_bind_of_ok result_groups] at h
  obtain ⟨endpoints, p₂, hendpoints, h⟩ := of_result_bind_ok h
  cases h
  exact ⟨table, inner, routes, endpoints, htable, hok, hendpoints, rfl⟩

/-- The outcome of a blueprint is that of its pass. -/
theorem outcome_eq_iff : (s.blueprint config seed).outcome = (.ok b, log) ↔
    ∃ expansions, (build s config seed).result ⟨[], []⟩ = (.ok b, ⟨expansions, log⟩) := by
  have houtcome : (s.blueprint config seed).outcome =
      (((build s config seed).result ⟨[], []⟩).1, ((build s config seed).result ⟨[], []⟩).2.log) :=
    rfl
  rw [houtcome]
  constructor
  · intro h
    obtain ⟨hb, rfl⟩ := Prod.mk.inj h
    exact ⟨_, Prod.ext hb rfl⟩
  · rintro ⟨expansions, h⟩
    rw [h]

/-- A blueprint takes over what the specification says of the API, and the settings. -/
theorem settings_eq (h : (s.blueprint config seed).outcome = (.ok b, log)) :
    b.info = s.info ∧ b.servers = s.servers ∧ b.config = config.getD Config.defaults := by
  obtain ⟨expansions, h⟩ := outcome_eq_iff.mp h
  obtain ⟨table, inner, routes, endpoints, -, -, -, rfl⟩ := of_build h
  exact ⟨rfl, rfl, rfl⟩

/-- A blueprint says of the API what the specification says of it. -/
theorem info_eq (h : (s.blueprint config seed).outcome = (.ok b, log)) : b.info = s.info :=
  (settings_eq h).1

/-! ## Groups -/

/-- The groups of a blueprint are those of the routes. -/
theorem groups_eq (h : (s.blueprint config seed).outcome = (.ok b, log)) :
    ∃ routes, s.routes = .ok routes ∧ b.groups = routes.map (Group.ofRoutes seed) := by
  obtain ⟨expansions, h⟩ := outcome_eq_iff.mp h
  obtain ⟨table, inner, routes, endpoints, -, hroutes, -, rfl⟩ := of_build h
  exact ⟨routes, hroutes, rfl⟩

/-- A group has the records that the seed has under its name. -/
theorem seed_eq_of_mem_groups (h : (s.blueprint config seed).outcome = (.ok b, log)) {g : Group}
    (hg : g ∈ b.groups) : g.seed = Seed.records seed g.key := by
  obtain ⟨routes, -, hgroups⟩ := groups_eq h
  rw [hgroups] at hg
  obtain ⟨r, -, rfl⟩ := List.mem_map.mp hg
  rfl

/-- **No two groups have one name.** -/
theorem nodup_group_keys (h : (s.blueprint config seed).outcome = (.ok b, log)) :
    (b.groups.map Group.key).Nodup := by
  obtain ⟨routes, hroutes, hgroups⟩ := groups_eq h
  rw [hgroups, List.map_map]
  exact s.nodup_routes hroutes

/-- **A group is named by the tags of an operation.** -/
theorem exists_tags_of_mem_groups (h : (s.blueprint config seed).outcome = (.ok b, log)) {g : Group}
    (hg : g ∈ b.groups) : ∃ o ∈ s.operations, g.key = Naming.groupKey o.tags := by
  obtain ⟨routes, hroutes, hgroups⟩ := groups_eq h
  rw [hgroups] at hg
  obtain ⟨e, he, rfl⟩ := List.mem_map.mp hg
  exact s.exists_tags_of_mem_routes hroutes (List.mem_map_of_mem he)

/-- **A route of a group is that of an operation.** -/
theorem exists_operation_of_mem_groups (h : (s.blueprint config seed).outcome = (.ok b, log))
    {g : Group} (hg : g ∈ b.groups) {r : Route} (hr : r ∈ g.routes) :
    ∃ o ∈ s.operations, Route.classify o = .ok r := by
  obtain ⟨routes, hroutes, hgroups⟩ := groups_eq h
  obtain ⟨rs, hrs, rfl⟩ := s.routes_eq hroutes
  rw [hgroups] at hg
  obtain ⟨e, he, rfl⟩ := List.mem_map.mp hg
  obtain ⟨o, ho, hclass⟩ := Sequence.exists_of_mem_right
    (Route.forall₂_of_mem_byGroup (Sequence.forall₂_of_mapM hrs) he) hr
  exact ⟨o, (List.mem_filter.mp ho).1, hclass⟩

/-- **Every operation has a route**, in the group of its tags. -/
theorem exists_group_of_mem_operations (h : (s.blueprint config seed).outcome = (.ok b, log))
    {o : Operation} (ho : o ∈ s.operations) : ∃ r, Route.classify o = .ok r ∧
      ∃ g ∈ b.groups, g.key = Naming.groupKey o.tags ∧ r ∈ g.routes := by
  obtain ⟨routes, hroutes, hgroups⟩ := groups_eq h
  obtain ⟨rs, hrs, rfl⟩ := s.routes_eq hroutes
  obtain ⟨r, hmem, hr⟩ := Sequence.exists_of_mem_left (Sequence.forall₂_of_mapM hrs) ho
  have hgroup : (r.group, rs.filter (·.group == r.group)) ∈ Route.byGroup rs := by
    rw [Route.byGroup_eq]
    exact List.mem_map.mpr ⟨r.group, List.mem_eraseDups.mpr (List.mem_map_of_mem hmem), rfl⟩
  refine ⟨r, hr, Group.ofRoutes seed _, hgroups ▸ List.mem_map_of_mem hgroup, ?_, ?_⟩
  · exact Route.group_of_classify hr
  · exact List.mem_filter.mpr ⟨hmem, beq_self_eq_true r.group⟩

/-- The name of a group is canonical. -/
theorem isCanonical_of_mem_groups (h : (s.blueprint config seed).outcome = (.ok b, log)) {g : Group}
    (hg : g ∈ b.groups) : Naming.IsCanonical g.key.toList := by
  obtain ⟨o, -, hkey⟩ := exists_tags_of_mem_groups h hg
  rw [hkey]
  exact Naming.isCanonical_groupKey o.tags

/-- **The stem of the files of a group is a slug**, whatever the tags are. -/
theorem isSlug_of_mem_groups (h : (s.blueprint config seed).outcome = (.ok b, log)) {g : Group}
    (hg : g ∈ b.groups) : Naming.IsSlug g.slug := by
  have hname : Naming.pascal g.key = g.key := (isCanonical_of_mem_groups h hg).pascal_eq
  obtain ⟨o, -, hkey⟩ := exists_tags_of_mem_groups h hg
  refine Naming.isSlug_kebab ?_
  rw [hname, hkey]
  exact Naming.groupKey_ne_nil o.tags

end Blueprint

end ApiMock
