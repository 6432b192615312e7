import ApiMock.Proofs.Emit.Imports
import ApiMock.Proofs.Route.Arguments
/-!
# Emit — which methods check their body

The check of a body is emitted by name: a method has it if it logs something
under the name of the body. A route with a body does, and so does one with a
path parameter that takes that name (`bodyGuard_iff`).
-/

namespace ApiMock

open TypeScript

namespace Emit

variable {o : Operation} {r : Route} {g : Group}

/-- How the line starts with which a body is refused. -/
def refusalOpening : List Char := "        throw new Error('Request".toList

theorem refusalOpening_eq : refusalOpening =
    [' ', ' ', ' ', ' ', ' ', ' ', ' ', ' ', 't', 'h', 'r', 'o', 'w', ' ', 'n', 'e', 'w', ' ',
      'E', 'r', 'r', 'o', 'r', '(', '\'', 'R', 'e', 'q', 'u', 'e', 's', 't'] := by
  decide

/-- Some of the lines refuses a body. -/
def Refuses (lines : List String) : Prop :=
  ∃ line ∈ lines, refusalOpening <+: line.toList

/-- The check of a body refuses it. -/
theorem refuses_bodyGuard : Refuses bodyGuard :=
  ⟨"        throw new Error('Request body must be an object');", by simp [bodyGuard], by decide⟩

theorem Refuses.of_infix {lines others : List String} (h : Refuses lines) (hin : lines <:+: others) :
    Refuses others := by
  obtain ⟨line, hline, hopens⟩ := h
  exact ⟨line, hin.subset hline, hopens⟩

theorem Silent.not_refuses {lines : List String} (h : Silent [refusalOpening] lines) :
    ¬ Refuses lines := by
  rintro ⟨line, hline, hopens⟩
  have hsilent := List.any_eq_false.mp (h line hline) refusalOpening (List.mem_singleton_self _)
  exact hsilent (List.isPrefixOf_iff_prefix.mpr hopens)

/-- Besides the check nothing in a method refuses a body. -/
theorem silent_unguarded :
    Silent [refusalOpening] (methodComment r ++ methodHead r ++ methodTail r) := by
  have hopening : [refusalOpening] = _ := congrArg (fun cs => [cs]) refusalOpening_eq
  simp only [methodComment, methodHead, methodTail, silent_append, silent_cons, silent_nil,
    and_true, String.append_assoc]
  -- lines with a part of the route in them are told by how they start
  simp (disch := exact opensNone_ofList hopening rfl) only [opens_line, true_and]
  and_intros <;> exact opens_ofList hopening rfl

/-- **A method checks its body exactly if it logs something under its name**, and
without the check it refuses none. -/
theorem bodyGuard_infix_iff : (bodyGuard <:+: method r ↔ Route.bodyName ∈ r.loggedNames) ∧
    (Refuses (method r) ↔ Route.bodyName ∈ r.loggedNames) := by
  rw [method, List.contains_eq_mem]
  by_cases h : Route.bodyName ∈ r.loggedNames
  · have hin : bodyGuard <:+: methodComment r ++ methodHead r ++ bodyGuard ++ methodTail r :=
      List.infix_append _ _ _
    simp only [h, decide_true, if_true, iff_true]
    exact ⟨hin, refuses_bodyGuard.of_infix hin⟩
  · have hnone : ¬ Refuses (methodComment r ++ methodHead r ++ methodTail r) :=
      silent_unguarded.not_refuses
    simp only [h, decide_false, Bool.false_eq_true, if_false, List.append_nil, iff_false]
    exact ⟨fun hin => hnone (refuses_bodyGuard.of_infix hin), hnone⟩

/-- The method of a route stands in the client of its group. -/
theorem method_infix_clientLines (h : r ∈ g.routes) : method r <:+: clientLines g := by
  obtain ⟨earlier, later, hroutes⟩ := List.append_of_mem h
  rw [clientLines, hroutes, List.flatMap_append, List.flatMap_cons]
  refine ⟨clientHead g ++ earlier.flatMap method, later.flatMap method ++ clientTail g ++
    g.routes.map (boundFunction g) ++ instanceExports g, ?_⟩
  simp only [List.append_assoc, hroutes]

/-- **Which methods check their body**: those of routes with a body, that is of
operations that have one and are no `GET`, and those with a placeholder or a
declared path parameter whose argument has the name of the body. Without the
check no line of the method refuses a body. -/
theorem bodyGuard_iff (h : Route.classify o = .ok r) :
    r.hasBody = (o.body.isSome && Naming.upper o.method ≠ "GET") ∧
      (bodyGuard <:+: method r ↔ r.hasBody = true ∨
        ∃ name, (name ∈ Naming.placeholders o.path ∨ ∃ q ∈ o.parametersIn "path", q.name = name) ∧
          Naming.Takes Route.bodyName name) ∧
      (Refuses (method r) ↔ bodyGuard <:+: method r) ∧
      ∀ g : Group, r ∈ g.routes → method r <:+: clientLines g := by
  obtain ⟨hguard, hrefuses⟩ := @bodyGuard_infix_iff r
  refine ⟨(Route.of_classify h).hasBody, ?_, hrefuses.trans hguard.symm,
    fun g hr => method_infix_clientLines hr⟩
  rw [hguard, Route.bodyName_mem_loggedNames_iff, Route.exists_pathParam_iff h]

/-- One operation by two methods: as a `PUT` it has a body and checks it, as a
`GET` it has none and checks nothing. -/
theorem pet_guarded :
    (∃ o r, Operation.parse "/pets/{pet-id}" "put" (Route.posting []) .null .null = .ok o ∧
      Route.classify o = .ok r ∧ r.hasBody = true ∧ bodyGuard <:+: method r) ∧
    ∃ o r, Operation.parse "/pets/{pet-id}" "get" (Route.posting []) .null .null = .ok o ∧
      Route.classify o = .ok r ∧ r.hasBody = false ∧ ¬ bodyGuard <:+: method r ∧
      ¬ Refuses (method r) := by
  constructor
  · obtain ⟨o, r, ho, hr, hbody⟩ : ∃ o r, Operation.parse "/pets/{pet-id}" "put"
        (Route.posting []) .null .null = .ok o ∧ Route.classify o = .ok r ∧ r.hasBody = true :=
      Route.exists_route (by decide +kernel)
    exact ⟨o, r, ho, hr, hbody, (bodyGuard_iff hr).2.1.mpr (.inl hbody)⟩
  · obtain ⟨o, r, ho, hr, hread⟩ : ∃ o r, Operation.parse "/pets/{pet-id}" "get"
        (Route.posting []) .null .null = .ok o ∧ Route.classify o = .ok r ∧
          (r.hasBody, Naming.placeholders o.path, (o.parametersIn "path").map Parameter.name) =
            (false, ["pet-id"], []) :=
      Route.exists_route (by decide +kernel)
    obtain ⟨hbody, hshown, hdeclared⟩ := (Prod.mk.inj hread).imp_right Prod.mk.inj
    obtain ⟨-, hiff, hrefuses, -⟩ := bodyGuard_iff hr
    have hnone : ¬ bodyGuard <:+: method r := by
      rw [hiff, hbody, hshown, List.map_eq_nil_iff.mp hdeclared]
      have htakes : ¬ Naming.Takes Route.bodyName "pet-id" := by
        rw [← Route.identifier_eq_bodyName_iff]
        decide
      simp [htakes]
    exact ⟨o, r, ho, hr, hbody, hnone, fun h => hnone (hrefuses.mp h)⟩

/-- A route without a body checks one if a path parameter has its name. -/
theorem file_guarded : ∃ o r,
    Operation.parse "/files/{body}" "get" (.object []) .null .null = .ok o ∧
      Route.classify o = .ok r ∧ r.hasBody = false ∧ bodyGuard <:+: method r := by
  obtain ⟨o, r, ho, hr, hread⟩ : ∃ o r, Operation.parse "/files/{body}" "get" (.object []) .null
      .null = .ok o ∧ Route.classify o = .ok r ∧ (r.hasBody, r.loggedNames) = (false, ["body"]) :=
    Route.exists_route (by decide +kernel)
  obtain ⟨hbody, hlogged⟩ := Prod.mk.inj hread
  refine ⟨o, r, ho, hr, hbody, bodyGuard_infix_iff.1.mpr ?_⟩
  rw [hlogged]
  exact List.mem_singleton_self _

end Emit

end ApiMock
