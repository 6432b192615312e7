import ApiMock.Proofs.Blueprint.Names
import ApiMock.Proofs.Emit.Paths
import ApiMock.Proofs.TypeScript.Quoted
/-!
# Emit — where the comments end

The comment of a method holds the text, the method and the path of its
route. Only the text has the sequence that closes comments taken out, so
the comment is closed once exactly if neither of the others has it. The
comments at the head of the types hold the title, the version and the
description of the API, and only the description has line feeds taken out.
-/

namespace ApiMock

namespace Emit

open Text TypeScript

variable {document : Data} {s : Spec} {config : Option Config} {seed : Option Seed} {b : Blueprint}
  {log : List LogEntry} {g : Group} {r : Route} {x y : String}

/-- Nothing in a text ends a line. -/
def OneLine (x : String) : Prop := ∀ c ∈ x.toList, isLineEnd c = false

instance (x : String) : Decidable (OneLine x) :=
  List.decidableBAll (fun c => isLineEnd c = false) x.toList

/-- A comment over some lines is closed once, by the last of them. -/
structure ClosedOnce (lines : List String) : Prop where
  once : pairCount '*' '/' (unlines lines).toList = 1
  last : lines.getLast? = some "   */"

/-! ## Comments of methods -/

/-- **The text of a comment does not close it**, whatever it was. -/
theorem pairCount_commentDoc (r : Route) : pairCount '*' '/' (commentDoc r).toList = 0 := by
  rw [commentDoc, flat, String.toList_ofList, String.toList_ofList, pairCount_map]
  · exact pairCount_replacePair (by decide) rfl rfl rfl
  all_goals
    intro c _
    split
    · rename_i hc
      rw [hc]
      decide
    · exact Iff.rfl

/-- A comment is closed by its last line, and wherever its method or its path closes it. -/
theorem pairCount_methodComment (r : Route) :
    pairCount '*' '/' (unlines (methodComment r)).toList =
      pairCount '*' '/' r.method.toList + pairCount '*' '/' r.path.toList + 1 := by
  have hdoc : pairCount '*' '/' ("   * " ++ commentDoc r).toList = 0 := by
    rw [pairCount_line (by simp), pairCount_commentDoc]
    rfl
  have hmethod : pairCount '*' '/' ("   * @method " ++ r.method).toList =
      pairCount '*' '/' r.method.toList := by
    rw [pairCount_line (by simp)]
    exact Nat.zero_add _
  have hpath : pairCount '*' '/' ("   * @path " ++ r.path).toList =
      pairCount '*' '/' r.path.toList := by
    rw [pairCount_line (by simp)]
    exact Nat.zero_add _
  have hopen : pairCount '*' '/' "  /**".toList = 0 := by decide
  have hclose : pairCount '*' '/' "   */".toList = 1 := by decide
  rw [pairCount_unlines (by decide) (by decide), methodComment]
  simp only [List.map_cons, List.map_nil, List.sum_cons, List.sum_nil, hdoc, hmethod, hpath, hopen,
    hclose]
  omega

/-- **When a comment is closed once.** -/
theorem closedOnce_methodComment : ClosedOnce (methodComment r) ↔
    pairCount '*' '/' r.method.toList = 0 ∧ pairCount '*' '/' r.path.toList = 0 := by
  have hcount := pairCount_methodComment r
  constructor
  · intro h
    have honce := h.once
    omega
  · intro h
    exact ⟨by omega, rfl⟩

/-- No method of a document closes a comment. -/
theorem pairCount_method {m : String} (h : m ∈ Spec.methods.map Naming.upper) :
    pairCount '*' '/' m.toList = 0 := by
  have hall : ∀ m ∈ Spec.methods.map Naming.upper, pairCount '*' '/' m.toList = 0 := by
    decide +kernel
  exact hall m h

/-- The comment of a route stands behind the methods of the routes before it. -/
theorem exists_clientLines {earlier later : List Route} (h : g.routes = earlier ++ r :: later) :
    ∃ rest, clientLines g =
      clientHead g ++ earlier.flatMap method ++ methodComment r ++ rest := by
  rw [clientLines, h, List.flatMap_append, List.flatMap_cons, method]
  simp only [List.append_assoc]
  exact ⟨_, rfl⟩

/-! ## Comments at the head of the types -/

theorem oneLine_append : OneLine (x ++ y) ↔ OneLine x ∧ OneLine y := by
  rw [OneLine, String.toList_append]
  exact List.forall_mem_append

/-- A text without line feeds is one line if nothing else ends a line. -/
theorem oneLine_flat : OneLine (flat x) ↔ ∀ c ∈ x.toList, isLineEnd c → c = '\n' := by
  rw [OneLine, flat, String.toList_ofList, List.forall_mem_map]
  refine forall₂_congr fun c _ => ?_
  split
  · rename_i hc
    exact iff_of_true rfl fun _ => hc
  · rename_i hc
    rw [← Bool.not_eq_true]
    exact ⟨fun hnot hend => absurd hend hnot, fun hfeed hend => hc (hfeed hend)⟩

/-- **When the comments at the head of the types are one line each.** -/
theorem oneLine_typesHeader {info : Info} : (∀ line ∈ typesHeader info, OneLine line) ↔
    OneLine info.title ∧ OneLine info.version ∧
      ∀ c ∈ (info.description.getD "").toList, isLineEnd c → c = '\n' := by
  have hfirst : OneLine "// Generated TypeScript interfaces from Swagger specification" := by
    decide
  have htitle : OneLine ("// API: " ++ info.title ++ " v" ++ info.version) ↔
      OneLine info.title ∧ OneLine info.version := by
    have hbefore : OneLine "// API: " := by decide
    have hbetween : OneLine " v" := by decide
    simp only [oneLine_append, hbefore, hbetween, true_and, and_true]
  have hdescription : (∀ line ∈ (if (info.description.getD "").isEmpty then []
      else ["// " ++ flat (info.description.getD "")]), OneLine line) ↔
      ∀ c ∈ (info.description.getD "").toList, isLineEnd c → c = '\n' := by
    split
    · rename_i hempty
      rw [String.isEmpty_iff] at hempty
      rw [hempty]
      exact iff_of_true (List.forall_mem_nil _) (List.forall_mem_nil _)
    · rw [List.forall_mem_singleton, oneLine_append, oneLine_flat]
      exact and_iff_right (by decide)
  rw [typesHeader, List.forall_mem_append, List.forall_mem_cons, List.forall_mem_singleton, htitle,
    hdescription, and_iff_right hfirst, and_assoc]

/-! ## All of them -/

/-- **Where the comments end.** The comment of a route has the sequence that closes it in its
last line, and besides only where the method or the path of the route has it; for a document,
where the path has it. The comments at the head of the types are one line each exactly if
nothing in the title and in the version ends a line, and nothing but line feeds in the
description. -/
theorem comments_end (h : (s.blueprint config seed).outcome = (.ok b, log)) :
    (∀ g ∈ b.groups, ∀ earlier r later, g.routes = earlier ++ r :: later →
      (∃ rest, clientLines g =
        clientHead g ++ earlier.flatMap method ++ methodComment r ++ rest) ∧
      (ClosedOnce (methodComment r) ↔
        pairCount '*' '/' r.method.toList = 0 ∧ pairCount '*' '/' r.path.toList = 0) ∧
      ∀ document, Spec.parse document = .ok s →
        (ClosedOnce (methodComment r) ↔ pairCount '*' '/' r.path.toList = 0)) ∧
    (∃ rest, typesLines b = typesHeader s.info ++ rest) ∧
    ((∀ line ∈ typesHeader s.info, OneLine line) ↔
      OneLine s.info.title ∧ OneLine s.info.version ∧
        ∀ c ∈ (s.info.description.getD "").toList, isLineEnd c → c = '\n') := by
  refine ⟨fun g hg earlier r later hroutes => ⟨exists_clientLines hroutes,
    closedOnce_methodComment, fun document hs => ?_⟩, ?_, oneLine_typesHeader⟩
  · have hr : r ∈ g.routes := hroutes ▸ List.mem_append_cons_self
    rw [closedOnce_methodComment]
    exact and_iff_right (pairCount_method (Blueprint.method_of_mem_groups hs h hg hr))
  · rw [typesLines, Blueprint.info_eq h]
    simp only [List.append_assoc]
    exact ⟨_, rfl⟩

/-- A summary that closes comments does no harm, nor does half of what closes one in a path. -/
theorem pets_commented : ∃ b log,
    ((placed "Pets" "Ends **/*/ here" "/pets/*").blueprint none none).outcome = (.ok b, log) ∧
      (∃ g r, b.groups = [g] ∧ g.routes = [r] ∧ r.path = "/pets/*" ∧
        ClosedOnce (methodComment r)) ∧
      ∀ line ∈ typesHeader b.info, OneLine line := by
  obtain ⟨b, log, houtcome, hinfo, g, r, hgroups, hroutes, hmethod, hpath⟩ :=
    exists_placed "Pets" "Ends **/*/ here" "/pets/*"
  obtain ⟨hcomments, -, hheader⟩ := comments_end houtcome
  have hclosed := (hcomments g (hgroups ▸ List.mem_singleton_self g) [] r [] hroutes).2.1
  rw [hmethod, hpath] at hclosed
  refine ⟨b, log, houtcome, ⟨g, r, hgroups, hroutes, hpath, hclosed.mpr (by decide)⟩, ?_⟩
  rw [Blueprint.info_eq houtcome]
  exact hheader.mpr ⟨by decide, by decide, List.forall_mem_nil _⟩

/-- Not every comment ends where it should: a path can close that of its method, and a title
can go on in a line that is none. -/
theorem comments_broken :
    (¬ ∀ (s : Spec) (config : Option Config) (seed : Option Seed) (b : Blueprint)
      (log : List LogEntry), (s.blueprint config seed).outcome = (.ok b, log) →
        ∀ g ∈ b.groups, ∀ r ∈ g.routes, ClosedOnce (methodComment r)) ∧
    ¬ ∀ (s : Spec) (config : Option Config) (seed : Option Seed) (b : Blueprint)
      (log : List LogEntry), (s.blueprint config seed).outcome = (.ok b, log) →
        ∀ line ∈ typesHeader b.info, OneLine line := by
  obtain ⟨b, log, houtcome, hinfo, g, r, hgroups, hroutes, hmethod, hpath⟩ :=
    exists_placed "Pets\nand more" "Lists them" "/a*/b"
  constructor
  · intro hall
    have hclosed := hall _ none none b log houtcome g (hgroups ▸ List.mem_singleton_self g) r
      (hroutes ▸ List.mem_singleton_self r)
    rw [closedOnce_methodComment, hpath] at hclosed
    exact absurd hclosed.2 (by decide)
  · intro hall
    have hheader := hall _ none none b log houtcome
    rw [oneLine_typesHeader, hinfo] at hheader
    exact absurd hheader.1 (by decide)

end Emit

end ApiMock
