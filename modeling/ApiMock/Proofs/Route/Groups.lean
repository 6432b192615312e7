import ApiMock.Proofs.Entries
import ApiMock.Proofs.Naming.Canonical
import ApiMock.Proofs.Sequence
import ApiMock.Route.Classify
/-!
# Route — what groups hold

The groups stand in the order of their first routes, each once, and a
group holds its routes in their order (`byGroup_eq`). So no route is lost
or moved to another group, and the names of the groups are canonical.
-/

namespace ApiMock

open Entries Sequence

namespace Route

/-- Where routes are told by their groups, those of one group are found under it. -/
theorem lookup_grouped (rs : List Route) (group : String) :
    (((rs.map Route.group).eraseDups.map fun k => (k, rs.filter (·.group == k))).lookup group).getD
      [] = rs.filter (·.group == group) := by
  cases hlook : ((rs.map Route.group).eraseDups.map fun k =>
      (k, rs.filter (·.group == k))).lookup group with
  | none =>
    have hnot : group ∉ rs.map Route.group := by
      have hkeys := lookup_eq_none_iff.mp hlook
      rwa [keys, List.map_map, Function.comp_def, List.map_id', List.mem_eraseDups] at hkeys
    rw [Option.getD_none, eq_comm, List.filter_eq_nil_iff]
    intro s hs hgroup
    exact hnot (List.mem_map.mpr ⟨s, hs, by simpa using hgroup⟩)
  | some held =>
    obtain ⟨k, -, hk⟩ := List.mem_map.mp (mem_of_lookup hlook)
    cases hk
    rfl

/-- **The groups of some routes.** -/
theorem byGroup_eq (rs : List Route) :
    byGroup rs = (rs.map Route.group).eraseDups.map fun k => (k, rs.filter (·.group == k)) := by
  induction rs using List.reverseRecOn with
  | nil => rfl
  | append_singleton rs r ih =>
    have hstep : byGroup (rs ++ [r]) = addToGroup (byGroup rs) r := by
      rw [byGroup, List.foldl_append]
      rfl
    have hnodup := Distinct.nodup_eraseDups (rs.map Route.group)
    -- what the group of `r` holds so far
    have hheld : ((byGroup rs).lookup r.group).getD [] = rs.filter (·.group == r.group) := by
      rw [ih]
      exact lookup_grouped rs r.group
    rw [hstep, addToGroup, Entries.modify, hheld, ih, put_map _ hnodup]
    have hkeys : ((rs ++ [r]).map Route.group).eraseDups =
        if r.group ∈ (rs.map Route.group).eraseDups then (rs.map Route.group).eraseDups
        else (rs.map Route.group).eraseDups ++ [r.group] := by
      rw [List.map_append, List.map_singleton]
      split
      · rename_i h
        rw [List.mem_eraseDups] at h
        exact Distinct.eraseDups_append_of_subset (by simpa using h)
      · rename_i h
        rw [List.mem_eraseDups] at h
        exact Distinct.eraseDups_concat_of_notMem h
    rw [hkeys]
    refine List.map_congr_left fun k _ => ?_
    by_cases hk : k = r.group
    · rw [hk]
      simp
    · have hne : ¬ r.group = k := fun e => hk e.symm
      simp [hk, hne]

/-- The groups are those of the routes. -/
theorem keys_byGroup (rs : List Route) : keys (byGroup rs) = (rs.map Route.group).eraseDups := by
  rw [byGroup_eq, keys, List.map_map, Function.comp_def, List.map_id']

/-- **No route is lost and none comes twice**: the groups together hold the
routes. -/
theorem flatMap_byGroup_perm (rs : List Route) : ((byGroup rs).flatMap Prod.snd).Perm rs := by
  rw [byGroup_eq, List.flatMap_map]
  refine Distinct.flatMap_filter_perm (Distinct.nodup_eraseDups _) fun r hr => ?_
  exact List.mem_eraseDups.mpr (List.mem_map_of_mem hr)

/-- **A group has a route.** -/
theorem ne_nil_of_mem_byGroup {rs : List Route} {g : String × List Route} (hg : g ∈ byGroup rs) :
    g.2 ≠ [] := by
  rw [byGroup_eq] at hg
  obtain ⟨k, hk, rfl⟩ := List.mem_map.mp hg
  obtain ⟨r, hr, hgroup⟩ := List.mem_map.mp (List.mem_eraseDups.mp hk)
  exact List.ne_nil_of_mem (List.mem_filter.mpr ⟨hr, by simpa using hgroup⟩)

/-- What a route takes from its operation. -/
structure TakenFrom (o : Operation) (r : Route) : Prop where
  group : r.group = Naming.groupKey o.tags
  functionName : r.functionName = Naming.functionName o.method o.path
    (if o.idDeclared then some o.id else none)
  place : (r.path, r.method) = (o.path, Naming.upper o.method)
  intent : r.intent = Intent.ofMethod r.method (Naming.hasTrailingPlaceholder o.path)
  pathParams : r.pathParams = pathParamsOf o
  queryParams : r.queryParams = queryParamsOf o
  hasBody : r.hasBody = (o.body.isSome && Naming.upper o.method ≠ "GET")

theorem of_classify {o : Operation} {r : Route} (h : classify o = .ok r) : TakenFrom o r := by
  obtain ⟨_, -, h⟩ := of_bind_ok h
  obtain ⟨_, -, h⟩ := of_bind_ok h
  cases h
  exact ⟨rfl, rfl, rfl, rfl, rfl, rfl, rfl⟩

/-- A route goes to the group of its operation. -/
theorem group_of_classify {o : Operation} {r : Route} (h : classify o = .ok r) :
    r.group = Naming.groupKey o.tags :=
  (of_classify h).group

/-- **A group holds the routes of its operations**, in their order. -/
theorem forall₂_of_mem_byGroup {os : List Operation} {rs : List Route}
    (h : List.Forall₂ (fun o r => classify o = .ok r) os rs) {g : String × List Route}
    (hg : g ∈ byGroup rs) :
    List.Forall₂ (fun o r => classify o = .ok r)
      (os.filter fun o => Naming.groupKey o.tags = g.1) g.2 := by
  rw [byGroup_eq] at hg
  obtain ⟨k, -, rfl⟩ := List.mem_map.mp hg
  refine List.rel_filter (fun o r hor => ?_) h
  simp [group_of_classify hor]

end Route

/-- The groups of a specification are made of the routes of its operations. -/
theorem Spec.routes_eq {s : Spec} {groups : List (String × List Route)} (h : s.routes = .ok groups) :
    ∃ rs, s.operations.mapM Route.classify = .ok rs ∧ groups = Route.byGroup rs := by
  obtain ⟨rs, hrs, h⟩ := of_bind_ok h
  cases h
  exact ⟨rs, hrs, rfl⟩

/-- **Each group is there once.** -/
theorem Spec.nodup_routes {s : Spec} {groups : List (String × List Route)}
    (h : s.routes = .ok groups) : (keys groups).Nodup := by
  obtain ⟨rs, -, rfl⟩ := s.routes_eq h
  rw [Route.keys_byGroup]
  exact Distinct.nodup_eraseDups _

/-- **Each group is that of an operation**, by its tags. -/
theorem Spec.exists_tags_of_mem_routes {s : Spec} {groups : List (String × List Route)}
    (h : s.routes = .ok groups) {k : String} (hk : k ∈ keys groups) :
    ∃ o ∈ s.operations, k = Naming.groupKey o.tags := by
  obtain ⟨rs, hrs, rfl⟩ := s.routes_eq h
  rw [Route.keys_byGroup, List.mem_eraseDups] at hk
  obtain ⟨r, hr, rfl⟩ := List.mem_map.mp hk
  obtain ⟨o, ho, hclass⟩ := exists_of_mem_mapM hrs r hr
  exact ⟨o, ho, Route.group_of_classify hclass⟩

end ApiMock
