import ApiMock.Emit.Client
import ApiMock.Proofs.Blueprint.Exports
import ApiMock.Proofs.Emit.Paths
/-!
# Emit — the members of a client

The class of a client has a member for its store and five methods of its
own, and between them a method for every route (`clientFile_blocks`). Only
the functions of routes are compared with each other, so a function that
takes the name of one of the other six members is not reported
(`members_twice`). A function that is named after its path can do so as
`getStats` only.
-/

namespace ApiMock

open Entries Sequence

namespace Emit

variable {s : Spec} {config : Option Config} {seed : Option Seed} {b : Blueprint}
  {log : List LogEntry} {g : Group} {r : Route} {n : String}

/-- The members of a client before the methods of its routes. -/
def membersBefore : List String := ["db", "init"]

/-- The members of a client behind the methods of its routes. -/
def membersAfter : List String := ["clearAllData", "getStats", "exportData", "importData"]

/-- The members that every client has. -/
def commonMembers : List String := membersBefore ++ membersAfter

/-- The members of the class of a client, in order. -/
def members (g : Group) : List String :=
  membersBefore ++ g.routes.map Route.functionName ++ membersAfter

/-- A block of lines declares a member of this name: behind a comment, if
there is one, a line opens a private field or a method of the name. -/
def DeclaresMember (block : List String) (name : String) : Prop :=
  ∃ comment lead after rest,
    block = comment ++ (lead ++ (name ++ after)) :: rest ∧
      (∀ line ∈ comment, "  /**".toList <+: line.toList ∨ "   *".toList <+: line.toList) ∧
      ((lead = "  private " ∧ after.toList.head? = some ':') ∨
        (lead = "  async " ∧ after.toList.head? = some '('))

/-- A route was reported to replace a function of this name in the group. -/
def RepeatedIn (g : Group) (log : List LogEntry) (n : String) : Prop :=
  ∃ r ∈ g.routes, r.functionName = n ∧
    ⟨.warning, .blueprint, Blueprint.repeatedMessage g.key r⟩ ∈ log

/-! ## The blocks -/

/-- A comment and a line that opens a method are a block. -/
theorem declaresMember_method (comment : List String) {rest : List String} {line : String}
    (after : String)
    (hline : line.toList = "  async ".toList ++ (n.toList ++ '(' :: after.toList))
    (hcomment : ∀ line ∈ comment, "  /**".toList <+: line.toList ∨ "   *".toList <+: line.toList) :
    DeclaresMember (comment ++ line :: rest) n := by
  have hopens : line = "  async " ++ (n ++ ("(" ++ after)) := by
    rw [← String.toList_inj, hline]
    simp
  exact ⟨comment, "  async ", "(" ++ after, rest, by rw [hopens], hcomment, .inr ⟨rfl, by simp⟩⟩

/-- A method that every client has is a block: its comment has one line. -/
theorem declaresMember_common {title line : String} {rest : List String} (after : String)
    (htitle : "   *".toList <+: title.toList)
    (hline : line.toList = "  async ".toList ++ (n.toList ++ '(' :: after.toList)) :
    DeclaresMember ("  /**" :: title :: "   */" :: line :: rest) n := by
  refine declaresMember_method ["  /**", title, "   */"] after hline fun line hline => ?_
  simp only [List.mem_cons, List.not_mem_nil, or_false] at hline
  rcases hline with rfl | rfl | rfl
  · exact .inl (List.prefix_refl _)
  · exact .inr htitle
  · exact .inr (by decide)

/-- The method of a route is a block. -/
theorem declaresMember_route (r : Route) : DeclaresMember (method r) r.functionName := by
  have hblock : method r = methodComment r ++ (methodHead r ++
      ((if r.loggedNames.contains Route.bodyName then bodyGuard else []) ++ methodTail r)) := by
    rw [method, List.append_assoc, List.append_assoc]
  rw [hblock, methodHead, List.cons_append]
  refine declaresMember_method _ (r.signature ++ "): Promise<ApiResponse<any>> \x7b")
    (by simp) fun line hline => ?_
  simp only [methodComment, List.mem_cons, List.not_mem_nil, or_false] at hline
  rcases hline with rfl | rfl | rfl | rfl | rfl
  · exact .inl (List.prefix_refl _)
  all_goals exact .inr (by simp)

/-- What stands before the methods of the routes is a header and two blocks. -/
theorem clientHead_blocks (g : Group) : ∃ header blocks,
    clientHead g = header ++ blocks.flatten ∧ List.Forall₂ DeclaresMember blocks membersBefore := by
  refine ⟨(clientHead g).take 10, [((clientHead g).drop 10).take 6, (clientHead g).drop 16], rfl,
    .cons ?db (.cons ?init .nil)⟩
  case db =>
    have hopens : "  private db: " ++ g.dbClass ++ ";" =
        "  private " ++ ("db" ++ (": " ++ g.dbClass ++ ";")) := by
      rw [← String.toList_inj]
      simp
    exact ⟨[], "  private ", ": " ++ g.dbClass ++ ";", ((clientHead g).drop 11).take 5,
      by rw [← hopens]; rfl, by simp, .inl ⟨rfl, by simp⟩⟩
  case init =>
    exact declaresMember_common "): Promise<void> \x7b" (by decide) (by simp)

/-- What stands behind them is four blocks and a footer. -/
theorem clientTail_blocks (g : Group) : ∃ blocks footer,
    clientTail g = blocks.flatten ++ footer ∧ List.Forall₂ DeclaresMember blocks membersAfter := by
  refine ⟨[(clientTail g).take 7, ((clientTail g).drop 7).take 7, ((clientTail g).drop 14).take 7,
    ((clientTail g).drop 21).take 6], (clientTail g).drop 27, rfl,
    .cons ?clear (.cons ?stats (.cons ?«export» (.cons ?«import» .nil)))⟩
  case clear =>
    exact declaresMember_common "): Promise<void> \x7b" (by simp) (by simp)
  case stats =>
    exact declaresMember_common "): Promise<\x7b totalRecords: number; lastUpdated: Date \x7d> \x7b"
      (by decide) (by simp)
  case «export» =>
    exact declaresMember_common "): Promise<any[]> \x7b" (by decide) (by simp)
  case «import» =>
    exact declaresMember_common "data: any[]): Promise<void> \x7b" (by decide) (by simp)

/-- **The file of a client has a block for every member of its class**, in
order. -/
theorem clientFile_blocks (g : Group) : ∃ header blocks footer,
    clientFile g = unlines (header ++ blocks.flatten ++ footer) ∧
      List.Forall₂ DeclaresMember blocks (members g) := by
  obtain ⟨header, before, hhead, hbefore⟩ := clientHead_blocks g
  obtain ⟨after, footer, htail, hafter⟩ := clientTail_blocks g
  have hroutes : List.Forall₂ DeclaresMember (g.routes.map method)
      (g.routes.map Route.functionName) := by
    rw [List.forall₂_map_left_iff, List.forall₂_map_right_iff, List.forall₂_same]
    exact fun r _ => declaresMember_route r
  refine ⟨header, before ++ g.routes.map method ++ after,
    footer ++ g.routes.map (boundFunction g) ++ instanceExports g, ?_,
    List.rel_append (List.rel_append hbefore hroutes) hafter⟩
  rw [clientFile, clientLines, hhead, htail, List.flatMap_def]
  simp only [List.flatten_append, List.append_assoc]

/-! ## Names that come twice -/

/-- The common members have different names. -/
theorem nodup_commonMembers : commonMembers.Nodup := by decide

/-- A member that comes twice is that of two functions, or a common one that
one function has. -/
theorem of_count_members (h : 2 ≤ (members g).count n) :
    2 ≤ (g.routes.map Route.functionName).count n ∨
      (n ∈ commonMembers ∧ (g.routes.map Route.functionName).count n = 1) := by
  have hcommon : commonMembers.count n ≤ 1 := List.nodup_iff_count_le_one.mp nodup_commonMembers n
  have hcount : (members g).count n =
      commonMembers.count n + (g.routes.map Route.functionName).count n := by
    rw [members, commonMembers, List.count_append, List.count_append, List.count_append]
    omega
  rw [← List.count_pos_iff]
  omega

/-- **A route whose function another one before it has is reported.** -/
theorem repeated_of_earlier (h : (s.blueprint config seed).outcome = (.ok b, log))
    (hg : g ∈ b.groups) {earlier later : List Route} (hroutes : g.routes = earlier ++ r :: later)
    (hr : r.functionName ∈ earlier.map Route.functionName) :
    ⟨.warning, .blueprint, Blueprint.repeatedMessage g.key r⟩ ∈ log := by
  obtain ⟨ds, routes, h, -⟩ := Blueprint.contents h
  rw [h.groups] at hg
  obtain ⟨e, he, rfl⟩ := List.mem_map.mp hg
  refine h.repetitions _ (List.mem_flatMap.mpr ⟨e, he, ?_⟩)
  have hsplit : e.2 = earlier ++ r :: later := hroutes
  rw [hsplit]
  exact Blueprint.mem_repeatedMessages (.inr (List.mem_map.mp hr))

/-- So is a function that two routes of a group have. -/
theorem repeatedIn_of_count (h : (s.blueprint config seed).outcome = (.ok b, log))
    (hg : g ∈ b.groups) (hn : 2 ≤ (g.routes.map Route.functionName).count n) :
    RepeatedIn g log n := by
  rw [List.map_eq_flatMap] at hn
  obtain ⟨before, x, between, r, after, hroutes, hx, hr⟩ :=
    Distinct.two_of_count_flatMap (fun _ => List.nodup_singleton _) hn
  rw [List.mem_singleton] at hx hr
  refine ⟨r, by simp [hroutes], hr.symm, repeated_of_earlier h hg hroutes ?_⟩
  exact List.mem_map.mpr ⟨x, by simp, by rw [← hx, hr]⟩

/-! ## Functions with the name of a common member -/

/-- A function has the camel form of the declared id, or the method with the
resource of the path. -/
theorem functionName_cases (method path : String) (declaredId : Option String) :
    (∃ id, declaredId = some id ∧ Naming.functionName method path declaredId = Naming.camel id) ∨
      Naming.functionName method path declaredId = Naming.lower method ++
        (if (Naming.resourceName path).isEmpty then "Resource" else Naming.resourceName path) := by
  cases declaredId with
  | none => exact .inr rfl
  | some id =>
    rw [Naming.functionName]
    split
    · exact .inr rfl
    · exact .inl ⟨id, rfl, rfl⟩

/-- **Only one method goes on to the name of a common member**, and with one
resource only. -/
theorem getStats_of_derived {method resource : String}
    (hmethod : method ∈ Spec.methods.map Naming.upper)
    (h : Naming.lower method ++ resource ∈ commonMembers) :
    method = "GET" ∧ resource = "Stats" := by
  have hverbs : ∀ m ∈ Spec.methods.map Naming.upper, ∀ n ∈ commonMembers,
      (Naming.lower m).toList <+: n.toList → m = "GET" ∧ n = "getStats" := by decide +kernel
  obtain ⟨rfl, hname⟩ := hverbs method hmethod _ h ⟨resource.toList, String.toList_append.symm⟩
  have hget : Naming.lower "GET" = "get" := by decide +kernel
  refine ⟨rfl, ?_⟩
  rw [hget, ← String.toList_inj, String.toList_append] at hname
  rw [← String.toList_inj]
  exact List.append_cancel_left hname

/-- **Where a function with the name of a common member comes from**: the id
of its operation was declared, or the operation is `GET` of stats. -/
theorem origin_of_commonMember (h : (s.blueprint config seed).outcome = (.ok b, log))
    (hg : g ∈ b.groups) (hr : r ∈ g.routes) (hname : r.functionName ∈ commonMembers) :
    ∃ o ∈ s.operations, Route.classify o = .ok r ∧
      (o.method ∈ Spec.methods.map Naming.upper →
        (o.idDeclared = true ∧ r.functionName = Naming.camel o.id) ∨
          (r.functionName = "getStats" ∧ o.method = "GET" ∧
            Naming.resourceName o.path = "Stats")) := by
  obtain ⟨o, ho, hclass⟩ := Blueprint.exists_operation_of_mem_groups h hg hr
  have hfunction := (Route.of_classify hclass).functionName
  refine ⟨o, ho, hclass, fun hmethod => ?_⟩
  rcases functionName_cases o.method o.path (if o.idDeclared then some o.id else none) with
    ⟨id, hid, hcamel⟩ | hderived
  · split at hid
    · rename_i hdeclared
      cases hid
      exact .inl ⟨hdeclared, hfunction.trans hcamel⟩
    · cases hid
  · rw [hfunction, hderived] at hname
    obtain ⟨hget, hstats⟩ := getStats_of_derived hmethod hname
    refine .inr ⟨?_, hget, ?_⟩
    · rw [hfunction, hderived, hstats, hget]
      decide +kernel
    · split at hstats
      · exact absurd hstats (by decide)
      · exact hstats

/-! ## What is reported -/

/-- **A member that comes twice.** The file of a client has a block for every
member of its class. A route is reported if one before it in its group has
its function. A name that comes twice is reported, unless it is that of a
common member and of one function only. Such a function has the id that its
operation declares, or it is `getStats` for `GET` of stats. -/
theorem members_twice (h : (s.blueprint config seed).outcome = (.ok b, log)) (hg : g ∈ b.groups) :
    (∃ header blocks footer, clientFile g = unlines (header ++ blocks.flatten ++ footer) ∧
      List.Forall₂ DeclaresMember blocks (members g)) ∧
    (∀ earlier r later, g.routes = earlier ++ r :: later →
      r.functionName ∈ earlier.map Route.functionName →
        ⟨.warning, .blueprint, Blueprint.repeatedMessage g.key r⟩ ∈ log) ∧
    (∀ n, 2 ≤ (members g).count n → RepeatedIn g log n ∨
      (n ∈ commonMembers ∧ (g.routes.map Route.functionName).count n = 1)) ∧
    ∀ r ∈ g.routes, r.functionName ∈ commonMembers →
      ∃ o ∈ s.operations, Route.classify o = .ok r ∧
        (o.method ∈ Spec.methods.map Naming.upper →
          (o.idDeclared = true ∧ r.functionName = Naming.camel o.id) ∨
            (r.functionName = "getStats" ∧ o.method = "GET" ∧
              Naming.resourceName o.path = "Stats")) :=
  ⟨clientFile_blocks g, fun _ _ _ hroutes hr => repeated_of_earlier h hg hroutes hr,
    fun _ hn => (of_count_members hn).imp_left (repeatedIn_of_count h hg),
    fun _ hr hname => origin_of_commonMember h hg hr hname⟩

/-- Two operations of one tag have one function, and it is reported. -/
theorem pets_reported : ∃ b log, ((tagged ["Pets", "pets"]).blueprint none none).outcome =
    (.ok b, log) ∧ ∃ g ∈ b.groups, 2 ≤ (members g).count "listItems" ∧
      RepeatedIn g log "listItems" := by
  have hmade : ((tagged ["Pets", "pets"]).blueprint none none).outcome.1.toOption.map
      (fun b => b.groups.map members) = some [membersBefore ++ ["listItems", "listItems"] ++
        membersAfter] := by decide +kernel
  obtain ⟨b, hb, hmembers⟩ := of_toOption_map hmade
  have houtcome : ((tagged ["Pets", "pets"]).blueprint none none).outcome = (.ok b, _) :=
    Prod.ext hb rfl
  obtain ⟨g, hg, hnames⟩ := List.mem_map.mp (hmembers ▸ List.mem_singleton_self _)
  have hcount : 2 ≤ (members g).count "listItems" := by
    rw [hnames]
    decide
  refine ⟨b, _, houtcome, g, hg, hcount, ?_⟩
  rcases (members_twice houtcome hg).2.2.1 "listItems" hcount with hreported | ⟨hcommon, -⟩
  · exact hreported
  · exact absurd hcommon (by decide)

/-- Not every member that comes twice is reported: without a declared id,
`GET` of stats has the function of a common member. -/
theorem stats_taken_silently : ¬ ∀ (s : Spec) (config : Option Config) (seed : Option Seed)
    (b : Blueprint) (log : List LogEntry) (g : Group) (n : String),
    (s.blueprint config seed).outcome = (.ok b, log) → g ∈ b.groups →
      2 ≤ (members g).count n → ∃ e ∈ log, e.level = .warning := by
  intro hall
  have hmade : (Spec.blueprint ⟨⟨"Pets", "1", none⟩, [],
      [⟨"/stats", "GET", "getstats", false, none, none, [], none, [⟨"200", "ok", []⟩], []⟩],
      []⟩ none none).outcome.1.toOption.map (fun b => b.groups.map members) =
      some [membersBefore ++ ["getStats"] ++ membersAfter] := by decide +kernel
  have hlog : (Spec.blueprint ⟨⟨"Pets", "1", none⟩, [],
      [⟨"/stats", "GET", "getstats", false, none, none, [], none, [⟨"200", "ok", []⟩], []⟩],
      []⟩ none none).outcome.2 = [] := by decide +kernel
  obtain ⟨b, hb, hmembers⟩ := of_toOption_map hmade
  obtain ⟨g, hg, hnames⟩ := List.mem_map.mp (hmembers ▸ List.mem_singleton_self _)
  obtain ⟨e, he, -⟩ := hall _ none none b [] g "getStats" (Prod.ext hb hlog) hg (by
    rw [hnames]
    decide)
  cases he

end Emit

end ApiMock
