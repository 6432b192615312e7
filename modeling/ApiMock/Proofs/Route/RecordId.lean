import ApiMock.Proofs.Route.Parameters
import ApiMock.Route.Code
/-!
# Route — the id of a record

The id of the record that a route is about is its last path parameter. That
is a declared one that the path does not show, if there is one, or else the
name that comes up last in the path (`idParam?_of_classify`). For a path that
ends in a placeholder this is the placeholder unless one of two things comes
behind it: such a declared one, or a name that is new where the placeholder
has already come up.
-/

namespace ApiMock

namespace Naming

variable {path name : String}

/-- Of the placeholders of a path that ends in one, this is the last one unless
a name is new behind its first place. -/
theorem EndsIn.getLast?_placeholders (h : EndsIn path name) (hne : name ≠ "")
    (hclose : '}' ∉ name.toList) : (placeholders path).getLast? = some name ↔
      ∀ before after, shownNames path = before ++ name :: after → name ∉ before →
        ∀ other ∈ after, other = name ∨ other ∈ before := by
  obtain ⟨front, hfront⟩ := h.exists_names hne hclose
  rw [placeholders_eq, hfront, Distinct.getLast?_eraseDups_concat]
  constructor
  · intro hfirst before after hnames hbefore other hother
    -- the last name may be the first place of the placeholder
    rcases List.eq_nil_or_concat after with rfl | ⟨inner, last, rfl⟩
    · cases hother
    · rw [List.concat_eq_append] at hnames hother
      rw [← List.cons_append, ← List.append_assoc] at hnames
      obtain ⟨hsplit, hlast⟩ := List.append_inj' hnames rfl
      obtain rfl := List.singleton_inj.mp hlast
      rcases List.mem_append.mp hother with hother | hother
      · exact hfirst before inner hsplit hbefore other hother
      · exact .inl (List.mem_singleton.mp hother)
  · intro hfirst before after hnames hbefore other hother
    refine hfirst before (after ++ [name]) ?_ hbefore other (List.mem_append_left _ hother)
    rw [hnames]
    simp

/-- Such a path ends in a placeholder, as far as the intent goes. -/
theorem EndsIn.hasTrailingPlaceholder (h : EndsIn path name) :
    Naming.hasTrailingPlaceholder path = true := by
  have hlast : ('{' :: (name.toList ++ ['}'])).getLast? = some '}' := by
    rw [← List.cons_append, List.getLast?_concat]
  rw [Naming.hasTrailingPlaceholder, h, Option.any_some, isPlaceholder, hlast]
  rfl

end Naming

namespace Route

variable {o : Operation} {r : Route} {p : String}

/-- **The id of a record is the last declared path parameter that the path
does not show**, or else the last of its placeholders. -/
theorem idParam?_of_classify (h : classify o = .ok r) :
    r.idParam? = (hiddenNames o).getLast?.or (Naming.placeholders o.path).getLast? := by
  rw [idParam?, (of_classify h).pathParams, ← List.getLast?_map, names_pathParamsOf,
    List.getLast?_append]

/-- All declared path parameters are shown exactly if none is left over. -/
theorem hiddenNames_eq_nil_iff : hiddenNames o = [] ↔
    ∀ q ∈ o.parametersIn "path", q.name ∈ Naming.placeholders o.path := by
  rw [List.eq_nil_iff_forall_not_mem]
  constructor
  · intro h q hq
    by_contra hhidden
    exact h q.name (mem_hiddenNames.mpr ⟨⟨q, hq, rfl⟩, hhidden⟩)
  · intro h name hname
    obtain ⟨⟨q, hq, rfl⟩, hhidden⟩ := mem_hiddenNames.mp hname
    exact hhidden (h q hq)

/-- The argument for a path parameter of this name, as an id. -/
def idOf (name : String) : String :=
  "String(" ++ Naming.identifier name ++ ")"

/-- What the store gets of a route with an id: to find or delete a record its
id alone, to update one its id and the body. -/
theorem storeArguments_of_idParam? (hid : r.idParam? = some p) (hne : p ≠ "") :
    (r.intent = .getById ∨ r.intent = .delete → r.storeArguments = idOf p) ∧
      (r.intent = .update →
        r.storeArguments = idOf p ++ ", " ++ if r.hasBody then bodyName else "\x7b\x7d") := by
  have hexpression : r.idExpression = idOf p := by
    rw [idExpression, hid]
    exact if_neg (by simpa using hne)
  constructor
  · rintro (hintent | hintent)
    · rw [storeArguments, hintent, hexpression]
    · rw [storeArguments, hintent, hexpression]
  · intro hintent
    rw [storeArguments, hintent, hexpression]

/-- **Where a path ends in a placeholder, this is the id of the record**
exactly if the path shows all declared path parameters and no name is new in it
behind the first place of that placeholder; the store then gets the argument
for it. The id is otherwise the last declared parameter that is not shown, or
else the name that comes up last. -/
theorem recordId_of_endsIn (h : classify o = .ok r) (hend : Naming.EndsIn o.path p) (hne : p ≠ "")
    (hclose : '}' ∉ p.toList) :
    r.intent = Intent.ofMethod r.method true ∧
      r.idParam? = (hiddenNames o).getLast?.or (Naming.placeholders o.path).getLast? ∧
      (∃ shown, Naming.PathShows o.path shown ∧
        (r.idParam? = some p ↔ (∀ q ∈ o.parametersIn "path", q.name ∈ shown) ∧
          ∀ before after, shown = before ++ p :: after → p ∉ before →
            ∀ other ∈ after, other = p ∨ other ∈ before)) ∧
      (r.idParam? = some p →
        (r.intent = .getById ∨ r.intent = .delete → r.storeArguments = idOf p) ∧
        (r.intent = .update →
          r.storeArguments = idOf p ++ ", " ++ if r.hasBody then bodyName else "\x7b\x7d")) := by
  have hid := idParam?_of_classify h
  have hshown : ∀ {name}, name ∈ Naming.placeholders o.path ↔ name ∈ Naming.shownNames o.path := by
    rw [Naming.placeholders_eq]
    exact List.mem_eraseDups
  refine ⟨?_, hid, ⟨_, Naming.pathShows_shownNames _, ?_⟩,
    fun hp => storeArguments_of_idParam? hp hne⟩
  · rw [(of_classify h).intent, hend.hasTrailingPlaceholder]
  · rw [hid, ← hend.getLast?_placeholders hne hclose]
    constructor
    · intro hlast
      cases hhidden : (hiddenNames o).getLast? with
      | none =>
        rw [hhidden, Option.none_or] at hlast
        have hnone := hiddenNames_eq_nil_iff.mp (List.getLast?_eq_none_iff.mp hhidden)
        exact ⟨fun q hq => hshown.mp (hnone q hq), hlast⟩
      | some name =>
        -- what is not shown is not the placeholder
        rw [hhidden, Option.some_or, Option.some_inj] at hlast
        subst hlast
        have hin : name ∈ Naming.shownNames o.path := by
          obtain ⟨front, hfront⟩ := hend.exists_names hne hclose
          rw [hfront]
          exact List.mem_append_right _ (List.mem_singleton_self _)
        exact absurd (hshown.mpr hin) (mem_hiddenNames.mp (List.mem_of_getLast? hhidden)).2
    · rintro ⟨hall, hlast⟩
      have hnone : hiddenNames o = [] :=
        hiddenNames_eq_nil_iff.mpr fun q hq => hshown.mpr (hall q hq)
      rw [hnone, hlast]
      rfl

/-- An operation that declares these path parameters. -/
def placing (names : List String) : Data :=
  .object [("parameters", .list (names.map fun name => listed (.str name) "path" "string"))]

/-- The declared parameters are shown, in whatever order, and nothing is new
behind the placeholder at the end. -/
theorem pet_of_owner_identified : ∃ o r,
    Operation.parse "/owners/{ownerId}/pets/{pet-id}/" "put" (placing ["pet-id", "ownerId"]) .null
        .null = .ok o ∧ classify o = .ok r ∧
      Naming.EndsIn o.path "pet-id" ∧ "pet-id" ≠ "" ∧ '}' ∉ "pet-id".toList ∧
      r.idParam? = some "pet-id" ∧ r.storeArguments = "String(petId), \x7b\x7d" ∧
      (∃ shown, Naming.PathShows o.path shown ∧
        (∀ q ∈ o.parametersIn "path", q.name ∈ shown) ∧
          ∀ before after, shown = before ++ "pet-id" :: after → "pet-id" ∉ before →
            ∀ other ∈ after, other = "pet-id" ∨ other ∈ before) := by
  have hmade : (Operation.parse "/owners/{ownerId}/pets/{pet-id}/" "put"
      (placing ["pet-id", "ownerId"]) .null .null).toOption.bind (fun o =>
        (classify o).toOption.map fun r => (o.path, r.idParam?, r.storeArguments)) =
      some ("/owners/{ownerId}/pets/{pet-id}/", some "pet-id", "String(petId), \x7b\x7d") := by
    decide +kernel
  obtain ⟨o, r, ho, hr, hread⟩ := exists_route hmade
  obtain ⟨hpath, hid, hstore⟩ := (Prod.mk.inj hread).imp_right Prod.mk.inj
  have hends : Naming.EndsIn o.path "pet-id" := by
    rw [hpath]
    decide +kernel
  have hne : "pet-id" ≠ "" := by decide
  have hclose : '}' ∉ "pet-id".toList := by decide
  obtain ⟨-, -, ⟨shown, hshown, hiff⟩, -⟩ := recordId_of_endsIn hr hends hne hclose
  exact ⟨o, r, ho, hr, hends, hne, hclose, hid, hstore, shown, hshown, hiff.mp hid⟩

/-- A declared parameter that the path does not show takes the place of the
placeholder at the end, and so does a name that comes up between two places of
that placeholder. -/
theorem trailing_displaced :
    (∃ o r, Operation.parse "/pets/{petId}" "get" (placing ["tenant"]) .null .null = .ok o ∧
      classify o = .ok r ∧ Naming.EndsIn o.path "petId" ∧ r.idParam? = some "tenant" ∧
      r.storeArguments = "String(tenant)") ∧
    ∃ o r, Operation.parse "/pets/{id}/visits/{visit}/of/{id}" "get" (placing []) .null .null =
        .ok o ∧ classify o = .ok r ∧ Naming.EndsIn o.path "id" ∧ r.idParam? = some "visit" ∧
      r.storeArguments = "String(visit)" := by
  have hmade : ∀ (path : String) (operation : Data) (last id store : String),
      (Operation.parse path "get" operation .null .null).toOption.bind (fun o =>
        (classify o).toOption.map fun r => (o.path, r.idParam?, r.storeArguments)) =
        some (path, some id, store) → Naming.EndsIn path last →
      ∃ o r, Operation.parse path "get" operation .null .null = .ok o ∧ classify o = .ok r ∧
        Naming.EndsIn o.path last ∧ r.idParam? = some id ∧ r.storeArguments = store := by
    intro path operation last id store hmade hends
    obtain ⟨o, r, ho, hr, hread⟩ := exists_route hmade
    obtain ⟨hpath, hid, hstore⟩ := (Prod.mk.inj hread).imp_right Prod.mk.inj
    exact ⟨o, r, ho, hr, by rwa [hpath], hid, hstore⟩
  constructor
  · exact hmade _ _ "petId" "tenant" _ (by decide +kernel) (by decide +kernel)
  · exact hmade _ _ "id" "visit" _ (by decide +kernel) (by decide +kernel)

end Route

end ApiMock
