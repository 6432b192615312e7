import ApiMock.Proofs.Blueprint.Contents
import ApiMock.Proofs.Emit.Types
/-!
# Blueprint — names that are exported twice

The types file takes its names from three sources: the common types, the
definitions and the operations. Names are compared in two places only. Two
definitions of one canonical name are reported, and the first of them is
not exported. Two operations are reported if they are in one group under
one function name. No other pair is compared, so a name that is exported
twice is reported or is one of the pairs of `Unchecked`.
-/

namespace ApiMock

open TypeScript Entries Sequence

variable {s : Spec} {config : Option Config} {seed : Option Seed} {b : Blueprint}
  {log : List LogEntry} {ds : List Declared} {routes : List (String × List Route)} {n : String}

/-- The names under which the types of an operation are exported. -/
def Operation.typeNames (o : Operation) : List String :=
  (if o.body.isSome then [Naming.pascal o.id ++ "Request"] else []) ++
    [Naming.pascal o.id ++ "Response"]

/-- Two names that are not compared with each other. -/
inductive Unchecked (s : Spec) (n : String) : Prop where
  | commonDefinition (hcommon : n ∈ Emit.commonNames)
    (hdefinition : n ∈ s.schemas.map fun d => Naming.pascal d.1)
  | commonOperation {o : Operation} (hcommon : n ∈ Emit.commonNames) (ho : o ∈ s.operations)
    (hname : n ∈ o.typeNames)
  | definitionOperation {o : Operation}
    (hdefinition : n ∈ s.schemas.map fun d => Naming.pascal d.1) (ho : o ∈ s.operations)
    (hname : n ∈ o.typeNames)
  | operations {before between after : List Operation} {o other : Operation} {r r' : Route}
    (hoperations : s.operations = before ++ o :: between ++ other :: after)
    (hname : n ∈ o.typeNames) (hother : n ∈ other.typeNames) (hr : Route.classify o = .ok r)
    (hr' : Route.classify other = .ok r')
    (hapart : ¬ (r.group = r'.group ∧ r.functionName = r'.functionName))

/-- A function of an operation that exports the name was reported to be
emitted twice in its group. -/
def Repeated (s : Spec) (log : List LogEntry) (n : String) : Prop :=
  ∃ o ∈ s.operations, n ∈ o.typeNames ∧ ∃ r, Route.classify o = .ok r ∧
    ⟨.warning, .blueprint, Blueprint.repeatedMessage r.group r⟩ ∈ log

namespace Blueprint

/-! ## Repeated functions -/

/-- A route is reported if one before it has its function name. -/
theorem mem_repeatedMessages {key : String} {seen : List String} {earlier later : List Route}
    {r : Route}
    (h : r.functionName ∈ seen ∨ ∃ x ∈ earlier, x.functionName = r.functionName) :
    repeatedMessage key r ∈ repeatedMessages key seen (earlier ++ r :: later) := by
  induction earlier generalizing seen with
  | nil =>
    have hseen : seen.contains r.functionName = true := by
      simpa using h
    rw [List.nil_append, repeatedMessages, if_pos hseen]
    exact List.mem_cons_self
  | cons x rest ih =>
    have hrest : r.functionName ∈ x.functionName :: seen ∨
        ∃ y ∈ rest, y.functionName = r.functionName := by
      rcases h with h | ⟨y, hy, h⟩
      · exact .inl (List.mem_cons_of_mem _ h)
      · rcases List.mem_cons.mp hy with rfl | hy
        · exact .inl (h ▸ List.mem_cons_self)
        · exact .inr ⟨y, hy, h⟩
    rw [List.cons_append, repeatedMessages]
    split
    · exact List.mem_cons_of_mem _ (ih hrest)
    · exact ih hrest

/-- **A route is reported if one before it has its group and its function
name.** -/
theorem mem_allRepeatedMessages {earlier later : List Route} {r x : Route} (hx : x ∈ earlier)
    (hgroup : x.group = r.group) (hfunction : x.functionName = r.functionName) :
    repeatedMessage r.group r ∈ allRepeatedMessages (Route.byGroup (earlier ++ r :: later)) := by
  have hheld : (r.group, (earlier ++ r :: later).filter (·.group == r.group)) ∈
      Route.byGroup (earlier ++ r :: later) := by
    rw [Route.byGroup_eq]
    exact List.mem_map.mpr ⟨r.group, List.mem_eraseDups.mpr (by simp), rfl⟩
  have hfilter : (earlier ++ r :: later).filter (·.group == r.group) =
      earlier.filter (·.group == r.group) ++ r :: later.filter (·.group == r.group) := by
    simp
  refine List.mem_flatMap.mpr ⟨_, hheld, ?_⟩
  rw [hfilter]
  exact mem_repeatedMessages (.inr ⟨x, List.mem_filter.mpr ⟨hx, by simpa using hgroup⟩, hfunction⟩)

/-! ## The three sources -/

/-- What an operation exports is told by its id and its body. -/
theorem exports_eq_typeNames {R : Schema → TypeExpr → Prop} {o : Operation} {e : EndpointTypes}
    (h : EndpointTypes.For R o e) : e.exports = o.typeNames := by
  rw [EndpointTypes.exports, Operation.typeNames, optionRel_isSome h.request, h.name]

/-- The two names of an operation are different. -/
theorem nodup_typeNames (o : Operation) : o.typeNames.Nodup := by
  rw [Operation.typeNames]
  split
  · simp [← String.toList_inj]
  · simp

section

variable (h : Contents s seed b log ds routes)
include h

/-- The declarations have different names, those of the definitions. -/
theorem declarations_names : b.declarations.map Declaration.name =
    (s.schemas.map fun d => Naming.pascal d.1).eraseDups := by
  have hnames : b.declarations.map Declaration.name =
      keys (Entries.ofList (ds.map Declared.entry)) := by
    rw [h.declarations, List.map_map, keys]
    exact List.map_congr_left fun e he => (declares_of_mem_table h.declared he).1
  rw [hnames, keys_table h.declared]

/-- Everything that is exported, by source. -/
theorem exports_eq : Emit.exports b = Emit.commonNames ++
    (s.schemas.map fun d => Naming.pascal d.1).eraseDups ++
      s.operations.flatMap Operation.typeNames := by
  have hoperations : b.endpoints.flatMap EndpointTypes.exports =
      s.operations.flatMap Operation.typeNames := by
    rw [List.flatMap_def, List.flatMap_def,
      map_eq_map h.endpoints fun _ _ he => (exports_eq_typeNames he).symm]
  rw [Emit.exports, declarations_names h, hoperations]

/-- **Two definitions of one canonical name are reported.** -/
theorem exists_collisionMessage {before after : Definitions} {d : String × Schema}
    (hschemas : s.schemas = before ++ d :: after)
    (hd : Naming.pascal d.1 ∈ before.map fun e => Naming.pascal e.1) :
    ∃ earlier ∈ before, Naming.pascal earlier.1 = Naming.pascal d.1 ∧
      ⟨.warning, .types, collisionMessage earlier.1 d.1 (Naming.pascal d.1)⟩ ∈ log := by
  have hdeclared := h.declared
  rw [hschemas] at hdeclared
  obtain ⟨earlier, e, later, rfl, hearlier, ⟨hsource, hdeclares⟩, -⟩ := exists_split hdeclared
  have hnames : before.map (fun e => Naming.pascal e.1) =
      earlier.map fun e => e.declaration.name := map_eq_map hearlier fun _ _ he => he.2.name.symm
  have htaken : e.declaration.name ∈ earlier.map fun e => e.declaration.name := by
    rw [← hnames, hdeclares.name]
    exact hd
  obtain ⟨first, hfirst, hname, hmessage⟩ := exists_collision htaken
  obtain ⟨x, hplace⟩ := exists_beside_right hearlier hfirst
  obtain ⟨hxsource, hxdeclares⟩ := List.forall₂_zip hearlier hplace
  refine ⟨x, (List.of_mem_zip hplace).1, ?_, ?_⟩
  · rw [← hxdeclares.name, hname, hdeclares.name]
  · rw [hxsource, hsource, hdeclares.name] at hmessage
    exact h.collisions _ hmessage

/-- **Two operations in one group under one function name are reported.** -/
theorem repeated_of_operations {before between after : List Operation} {o other : Operation}
    {r r' : Route} (hoperations : s.operations = before ++ o :: between ++ other :: after)
    (hr : Route.classify o = .ok r) (hr' : Route.classify other = .ok r')
    (hgroup : r.group = r'.group) (hfunction : r.functionName = r'.functionName) :
    ⟨.warning, .blueprint, repeatedMessage r'.group r'⟩ ∈ log := by
  obtain ⟨rs, hrs, rfl⟩ := s.routes_eq h.routed
  have hbeside := forall₂_of_mapM hrs
  rw [hoperations] at hbeside
  obtain ⟨earlier, x', later, rfl, hearlier, hx', -⟩ := exists_split hbeside
  obtain ⟨first, x, second, rfl, -, hx, -⟩ := exists_split hearlier
  obtain rfl : x = r := Except.ok.inj (hx.symm.trans hr)
  obtain rfl : x' = r' := Except.ok.inj (hx'.symm.trans hr')
  exact h.repetitions _ (mem_allRepeatedMessages (by simp) hgroup hfunction)

end

/-- **A name that is exported twice.** The declarations have different names,
and definitions of one canonical name are reported. Any name that the types
file exports twice is one of the pairs that are not compared, or the
functions of two operations that export it were reported. -/
theorem exported_twice (hmade : (s.blueprint config seed).outcome = (.ok b, log)) :
    (b.declarations.map Declaration.name).Nodup ∧
      (∀ before d after, s.schemas = before ++ d :: after →
        Naming.pascal d.1 ∈ before.map (fun e => Naming.pascal e.1) →
          ∃ earlier ∈ before, Naming.pascal earlier.1 = Naming.pascal d.1 ∧
            ⟨.warning, .types, collisionMessage earlier.1 d.1 (Naming.pascal d.1)⟩ ∈ log) ∧
      ∀ n, 2 ≤ (Emit.exports b).count n → ¬ Unchecked s n → Repeated s log n := by
  obtain ⟨ds, routes, h, -⟩ := contents hmade
  refine ⟨?_, fun before d after => exists_collisionMessage h, fun n hn hchecked => ?_⟩
  · rw [declarations_names h]
    exact Distinct.nodup_eraseDups _
  · rw [exports_eq h] at hn
    have hcommon : Emit.commonNames.Nodup := by decide
    -- by the sources that the name is taken from twice
    rcases Distinct.of_count_append hcommon (Distinct.nodup_eraseDups _) hn with
      ⟨hcommon, hdefinition⟩ | ⟨hcommon, hoperation⟩ | ⟨hdefinition, hoperation⟩ | htwo
    · exact absurd (.commonDefinition hcommon (List.mem_eraseDups.mp hdefinition)) hchecked
    · obtain ⟨o, ho, hname⟩ := List.mem_flatMap.mp hoperation
      exact absurd (.commonOperation hcommon ho hname) hchecked
    · obtain ⟨o, ho, hname⟩ := List.mem_flatMap.mp hoperation
      exact absurd (.definitionOperation (List.mem_eraseDups.mp hdefinition) ho hname) hchecked
    · obtain ⟨before, o, between, other, after, hoperations, hname, hother⟩ :=
        Distinct.two_of_count_flatMap nodup_typeNames htwo
      have hin : o ∈ s.operations := by simp [hoperations]
      have hotherIn : other ∈ s.operations := by simp [hoperations]
      obtain ⟨rs, hrs, -⟩ := s.routes_eq h.routed
      obtain ⟨r, hr⟩ := isOk_of_mapM hrs o hin
      obtain ⟨r', hr'⟩ := isOk_of_mapM hrs other hotherIn
      -- only within a group are functions compared
      by_cases hsame : r.group = r'.group ∧ r.functionName = r'.functionName
      · exact ⟨other, hotherIn, hother, r', hr',
          repeated_of_operations h hoperations hr hr' hsame.1 hsame.2⟩
      · exact absurd (.operations hoperations hname hother hr hr' hsame) hchecked

/-- Two operations of one id in one group. -/
def doubled : Spec where
  info := ⟨"Doubled", "1", none⟩
  servers := []
  operations := ["/a", "/b"].map fun path =>
    ⟨path, "GET", "list", true, none, none, [], none, [⟨"200", "ok", []⟩], []⟩
  schemas := []

/-- Their name is one of those that are compared. -/
theorem not_unchecked_doubled : ¬ Unchecked doubled "ListResponse" := by
  intro h
  cases h with
  | commonDefinition hcommon => exact absurd hcommon (by decide)
  | commonOperation hcommon => exact absurd hcommon (by decide)
  | definitionOperation hdefinition => exact absurd hdefinition (by decide)
  | operations hoperations _ _ hr hr' hapart =>
    -- both operations have the default group and one function name
    have hall : ∀ o ∈ doubled.operations, (Route.classify o).toOption.map
        (fun r => (r.group, r.functionName)) = some ("Default", "list") := by decide +kernel
    have hroute : ∀ o ∈ doubled.operations, ∀ r, Route.classify o = .ok r →
        r.group = "Default" ∧ r.functionName = "list" := by
      intro o ho r hr
      have hvalue := hall o ho
      rw [hr] at hvalue
      exact Prod.mk.inj (Option.some.inj hvalue)
    obtain ⟨hgroup, hfunction⟩ := hroute _ (by rw [hoperations]; simp) _ hr
    obtain ⟨hgroup', hfunction'⟩ := hroute _ (by rw [hoperations]; simp) _ hr'
    exact hapart ⟨hgroup.trans hgroup'.symm, hfunction.trans hfunction'.symm⟩

/-- The name that both export is reported. -/
theorem doubled_reported : ∃ b log, (doubled.blueprint none none).outcome = (.ok b, log) ∧
    2 ≤ (Emit.exports b).count "ListResponse" ∧ Repeated doubled log "ListResponse" := by
  have hmade : (doubled.blueprint none none).outcome.1.toOption.map Emit.exports =
      some (Emit.commonNames ++ ["ListResponse", "ListResponse"]) := by decide +kernel
  obtain ⟨b, hb, hexports⟩ := of_toOption_map hmade
  have houtcome : (doubled.blueprint none none).outcome = (.ok b, _) := Prod.ext hb rfl
  have hcount : 2 ≤ (Emit.exports b).count "ListResponse" := by
    rw [hexports]
    decide
  exact ⟨b, _, houtcome, hcount,
    (exported_twice houtcome).2.2 "ListResponse" hcount not_unchecked_doubled⟩

/-- Not every name that is exported twice is reported: a definition may have
the name of a common type. -/
theorem common_name_taken_silently : ¬ ∀ (s : Spec) (config : Option Config) (seed : Option Seed)
    (b : Blueprint) (log : List LogEntry) (n : String),
    (s.blueprint config seed).outcome = (.ok b, log) → 2 ≤ (Emit.exports b).count n →
      ∃ e ∈ log, e.level = .warning := by
  intro hall
  have hmade : (Spec.blueprint ⟨⟨"Pets", "1", none⟩, [], [],
      [("ApiResponse", .primitive "string" none none)]⟩ none none).outcome =
        (.ok ⟨⟨"Pets", "1", none⟩, [], Config.defaults,
          [⟨"ApiResponse", none, .alias (.keyword .string)⟩], [], []⟩, []) := by cbv
  obtain ⟨e, he, -⟩ := hall _ none none _ [] "ApiResponse" hmade (by decide)
  cases he

end Blueprint

end ApiMock
