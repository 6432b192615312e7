import ApiMock.Proofs.Blueprint.Exports
import ApiMock.Proofs.Document.Operations
import ApiMock.Proofs.Naming.Identifier
/-!
# Blueprint — the names it declares

A blueprint declares the names of its types, of the types of its operations,
of the classes and the instance of each group, and of the functions of the
routes. All are made of letters and digits. A name is an identifier exactly
if what it is made of starts with a letter (`names_identifiers`): there is
something to fall back on only where a tag or an id has no letter or digit.
-/

namespace ApiMock

open TypeScript Entries Sequence Naming

variable {document : Data} {s : Spec} {config : Option Config} {seed : Option Seed} {b : Blueprint}
  {log : List LogEntry} {g : Group} {o : Operation} {r : Route} {n : String}

/-- The names that stand for the client and the store of a group. -/
def Group.names (g : Group) : List String :=
  [g.apiClass, g.dbClass, g.instanceName]

/-- The declared id of an operation. -/
def Operation.declaredId (o : Operation) : Option String :=
  if o.idDeclared then some o.id else none

/-- What the names of a specification are made of starts with a letter. A tag
may also be without a letter or digit. -/
structure Spec.WellNamed (s : Spec) : Prop where
  schemas : ∀ d ∈ s.schemas, opensWith Char.isAlpha d.1 = true
  ids : ∀ o ∈ s.operations, o.declaredId.all (opensWith Char.isAlpha) = true
  tags : ∀ o ∈ s.operations, o.tags.head?.any (opensWith Char.isDigit) = false

namespace Blueprint

/-- The names that are declared. -/
def declaredNames (b : Blueprint) : List String :=
  b.declarations.map Declaration.name ++ b.endpoints.map EndpointTypes.name ++
    b.groups.flatMap fun g => g.names ++ g.routes.map Route.functionName

theorem mem_declaredNames : n ∈ b.declaredNames ↔
    n ∈ b.declarations.map Declaration.name ∨ n ∈ b.endpoints.map EndpointTypes.name ∨
      ∃ g ∈ b.groups, n ∈ g.names ∨ n ∈ g.routes.map Route.functionName := by
  rw [declaredNames, List.mem_append, List.mem_append, List.mem_flatMap, or_assoc]
  simp only [List.mem_append]

/-! ## Groups -/

/-- The names of a group are as good as its key. -/
theorem isIdentifier_groupNames (h : (s.blueprint config seed).outcome = (.ok b, log))
    (hg : g ∈ b.groups) (hn : n ∈ g.names) :
    IsAlphanumeric n ∧ (IsIdentifier n ↔ IsIdentifier g.key) := by
  have hkey := isCanonical_of_mem_groups h hg
  obtain ⟨o, -, htags⟩ := exists_tags_of_mem_groups h hg
  have hne : g.key.toList ≠ [] := htags ▸ groupKey_ne_nil o.tags
  have halnum : IsAlphanumeric g.key := hkey.alphanumeric
  have hApi : IsAlphanumeric "Api" := by decide
  have hDatabase : IsAlphanumeric "Database" := by decide
  simp only [Group.names, List.mem_cons, List.not_mem_nil, or_false] at hn
  rcases hn with rfl | rfl | rfl
  · exact ⟨halnum.append hApi, (isIdentifier_groupName hkey hne hApi).1⟩
  · exact ⟨halnum.append hDatabase, (isIdentifier_groupName hkey hne hDatabase).1⟩
  · exact ⟨(isAlphanumeric_camel _).append hApi, (isIdentifier_groupName hkey hne hApi).2⟩

/-! ## Operations of a document -/

/-- An operation has one of the methods, and an id that was made starts with
a letter. -/
theorem origin_of_mem_operations (hs : Spec.parse document = .ok s) (ho : o ∈ s.operations) :
    o.method ∈ Spec.methods.map upper ∧
      (o.idDeclared = false → opensWith Char.isAlpha o.id = true) := by
  obtain ⟨w, hw, hreads⟩ := exists_of_mem_right (Slot.reads_of_parse hs) ho
  obtain ⟨item, -, hmethod, -⟩ := Slot.exists_of_mem_ofDocument hw
  obtain ⟨-, hupper, hid⟩ := hreads.origin
  exact ⟨hupper ▸ List.mem_map_of_mem hmethod,
    fun hdeclared => hid hdeclared ▸ opensWith_synthesizedId _ hmethod⟩

/-- A route has one of the methods. -/
theorem method_of_mem_groups (hs : Spec.parse document = .ok s)
    (h : (s.blueprint config seed).outcome = (.ok b, log)) (hg : g ∈ b.groups) (hr : r ∈ g.routes) :
    r.method ∈ Spec.methods.map upper := by
  obtain ⟨o, ho, hclass⟩ := exists_operation_of_mem_groups h hg hr
  obtain ⟨m, hm, hupper⟩ := List.mem_map.mp (origin_of_mem_operations hs ho).1
  rw [(Prod.mk.inj (Route.of_classify hclass).place).2, ← hupper, Slot.upper_upper hm]
  exact List.mem_map_of_mem hm

/-- **The types of an operation have an identifier unless the declared id
does not start with a letter.** -/
theorem isIdentifier_typeName (hs : Spec.parse document = .ok s) (ho : o ∈ s.operations) :
    IsIdentifier (pascal o.id) ↔ o.declaredId.all (opensWith Char.isAlpha) = true := by
  rw [isIdentifier_pascal, Operation.declaredId]
  cases hdeclared : o.idDeclared with
  | false => exact iff_of_true ((origin_of_mem_operations hs ho).2 hdeclared) rfl
  | true => rfl

/-- **A function has an identifier unless the declared id starts with a
digit.** -/
theorem isIdentifier_function (hs : Spec.parse document = .ok s) (ho : o ∈ s.operations)
    (hr : Route.classify o = .ok r) :
    IsAlphanumeric r.functionName ∧
      (IsIdentifier r.functionName ↔ o.declaredId.any (opensWith Char.isDigit) = false) := by
  rw [(Route.of_classify hr).functionName]
  exact isIdentifier_functionName _ _ (origin_of_mem_operations hs ho).1

/-! ## All names -/

section

variable (hs : Spec.parse document = .ok s) (h : (s.blueprint config seed).outcome = (.ok b, log))
include hs h

/-- **All names are made of letters and digits.** -/
theorem isAlphanumeric_of_mem_declaredNames (hn : n ∈ b.declaredNames) : IsAlphanumeric n := by
  obtain ⟨ds, routes, hb, -⟩ := contents h
  rcases mem_declaredNames.mp hn with hn | hn | ⟨g, hg, hn | hn⟩
  · rw [declarations_names hb, List.mem_eraseDups] at hn
    obtain ⟨d, -, rfl⟩ := List.mem_map.mp hn
    exact isAlphanumeric_pascal d.1
  · obtain ⟨e, he, rfl⟩ := List.mem_map.mp hn
    obtain ⟨o, -, hfor⟩ := exists_of_mem_right hb.endpoints he
    rw [hfor.name]
    exact isAlphanumeric_pascal o.id
  · exact (isIdentifier_groupNames h hg hn).1
  · obtain ⟨r, hr, rfl⟩ := List.mem_map.mp hn
    obtain ⟨o, ho, hclass⟩ := exists_operation_of_mem_groups h hg hr
    exact (isIdentifier_function hs ho hclass).1

/-- **All names are identifiers exactly if what they are made of starts with
a letter.** -/
theorem identifiers_iff_wellNamed :
    (∀ n ∈ b.declaredNames, IsIdentifier n) ↔ s.WellNamed := by
  obtain ⟨ds, routes, hb, -⟩ := contents h
  constructor
  · intro hall
    refine ⟨fun d hd => ?_, fun o ho => ?_, fun o ho => ?_⟩
    · rw [← isIdentifier_pascal]
      refine hall _ (mem_declaredNames.mpr (.inl ?_))
      rw [declarations_names hb, List.mem_eraseDups]
      exact List.mem_map.mpr ⟨d, hd, rfl⟩
    · obtain ⟨e, he, hfor⟩ := exists_of_mem_left hb.endpoints ho
      rw [← isIdentifier_typeName hs ho, ← hfor.name]
      exact hall _ (mem_declaredNames.mpr (.inr (.inl (List.mem_map_of_mem he))))
    · obtain ⟨-, -, g, hg, hkey, -⟩ := exists_group_of_mem_operations h ho
      have hname : g.apiClass ∈ g.names := List.mem_cons_self
      rw [← isIdentifier_groupKey, ← hkey, ← (isIdentifier_groupNames h hg hname).2]
      exact hall _ (mem_declaredNames.mpr (.inr (.inr ⟨g, hg, .inl hname⟩)))
  · intro hw n hn
    rcases mem_declaredNames.mp hn with hn | hn | ⟨g, hg, hn | hn⟩
    · rw [declarations_names hb, List.mem_eraseDups] at hn
      obtain ⟨d, hd, rfl⟩ := List.mem_map.mp hn
      exact isIdentifier_pascal.mpr (hw.schemas d hd)
    · obtain ⟨e, he, rfl⟩ := List.mem_map.mp hn
      obtain ⟨o, ho, hfor⟩ := exists_of_mem_right hb.endpoints he
      rw [hfor.name, isIdentifier_typeName hs ho]
      exact hw.ids o ho
    · obtain ⟨o, ho, hkey⟩ := exists_tags_of_mem_groups h hg
      rw [(isIdentifier_groupNames h hg hn).2, hkey, isIdentifier_groupKey]
      exact hw.tags o ho
    · obtain ⟨r, hr, rfl⟩ := List.mem_map.mp hn
      obtain ⟨o, ho, hclass⟩ := exists_operation_of_mem_groups h hg hr
      rw [(isIdentifier_function hs ho hclass).2]
      have hid := hw.ids o ho
      cases hdeclared : o.declaredId with
      | none => rfl
      | some id =>
        rw [hdeclared, Option.all_some] at hid
        exact opensWith_isDigit_eq_false hid

end

/-- **Which names are identifiers.** All declared names are made of letters
and digits, and all are identifiers exactly if what they are made of starts
with a letter. For a definition this is its key, for the types of an
operation the id, if it was declared. The names of a group may also be made
of a tag without a letter or digit, and a function of a declared id without
one. -/
theorem names_identifiers (hs : Spec.parse document = .ok s)
    (h : (s.blueprint config seed).outcome = (.ok b, log)) :
    (∀ n ∈ b.declaredNames, IsAlphanumeric n) ∧
    ((∀ n ∈ b.declaredNames, IsIdentifier n) ↔ s.WellNamed) ∧
    (b.declarations.map Declaration.name = (s.schemas.map fun d => pascal d.1).eraseDups ∧
      ∀ key, IsIdentifier (pascal key) ↔ opensWith Char.isAlpha key = true) ∧
    List.Forall₂ (fun o e => e.name = pascal o.id ∧
      (IsIdentifier e.name ↔ o.declaredId.all (opensWith Char.isAlpha) = true))
      s.operations b.endpoints ∧
    ∀ g ∈ b.groups, (∃ o ∈ s.operations, g.key = groupKey o.tags ∧ ∀ n ∈ g.names,
        (IsIdentifier n ↔ o.tags.head?.any (opensWith Char.isDigit) = false)) ∧
      ∀ r ∈ g.routes, ∃ o ∈ s.operations, Route.classify o = .ok r ∧
        (IsIdentifier r.functionName ↔ o.declaredId.any (opensWith Char.isDigit) = false) := by
  obtain ⟨ds, routes, hb, -⟩ := contents h
  refine ⟨fun n hn => isAlphanumeric_of_mem_declaredNames hs h hn, identifiers_iff_wellNamed hs h,
    ⟨declarations_names hb, fun key => isIdentifier_pascal⟩, ?_, fun g hg => ⟨?_, fun r hr => ?_⟩⟩
  · refine ((List.forall₂_and_left _ _).mpr ⟨fun o ho => ho, hb.endpoints⟩).imp fun o e he => ?_
    rw [he.2.name]
    exact ⟨rfl, isIdentifier_typeName hs he.1⟩
  · obtain ⟨o, ho, hkey⟩ := exists_tags_of_mem_groups h hg
    refine ⟨o, ho, hkey, fun n hn => ?_⟩
    rw [(isIdentifier_groupNames h hg hn).2, hkey, isIdentifier_groupKey]
  · obtain ⟨o, ho, hclass⟩ := exists_operation_of_mem_groups h hg hr
    exact ⟨o, ho, hclass, (isIdentifier_function hs ho hclass).2⟩

/-- An API with one operation, of this id and this tag. -/
def named (id tag : String) : Data := .object [
  ("info", .object [("title", .str "Named"), ("version", .str "1")]),
  ("paths", .object [("/check", .object [("get", .object [
    ("operationId", .str id), ("tags", .list [.str tag]),
    ("responses", .object [("200", .object [("description", .str "ok")])])])])])]

/-- A tag without a letter or digit is no harm, nor is a digit inside an id. -/
theorem named_identifiers : ∃ s b log, Spec.parse (named "check_2fa" "?!") = .ok s ∧
    (s.blueprint none none).outcome = (.ok b, log) ∧
    b.declaredNames = ["Check2fa", "DefaultApi", "DefaultDatabase", "defaultApi", "check2fa"] ∧
    (∀ n ∈ b.declaredNames, IsAlphanumeric n ∧ IsIdentifier n) ∧ s.WellNamed := by
  have hmade : (Spec.parse (named "check_2fa" "?!")).toOption.bind (fun s =>
      (s.blueprint none none).outcome.1.toOption.map declaredNames) =
      some ["Check2fa", "DefaultApi", "DefaultDatabase", "defaultApi", "check2fa"] := by
    decide +kernel
  obtain ⟨s, hs, hmade⟩ := of_toOption_bind hmade
  obtain ⟨b, hb, hnames⟩ := of_toOption_map hmade
  have houtcome : (s.blueprint none none).outcome = (.ok b, _) := Prod.ext hb rfl
  obtain ⟨halnum, hiff, -⟩ := names_identifiers hs houtcome
  have hidentifiers : ∀ n ∈ b.declaredNames, IsIdentifier n := by
    rw [hnames]
    decide
  exact ⟨s, b, _, hs, houtcome, hnames, fun n hn => ⟨halnum n hn, hidentifiers n hn⟩,
    hiff.mp hidentifiers⟩

/-- Not every declared name is an identifier: here none is. -/
theorem digit_first : ¬ ∀ (document : Data) (s : Spec) (config : Option Config)
    (seed : Option Seed) (b : Blueprint) (log : List LogEntry), Spec.parse document = .ok s →
      (s.blueprint config seed).outcome = (.ok b, log) → ∀ n ∈ b.declaredNames, IsIdentifier n := by
  intro hall
  have hmade : (Spec.parse (named "2fa-check" "2fa")).toOption.bind (fun s =>
      (s.blueprint none none).outcome.1.toOption.map declaredNames) =
      some ["2faCheck", "2faApi", "2faDatabase", "2faApi", "2faCheck"] := by decide +kernel
  obtain ⟨s, hs, hmade⟩ := of_toOption_bind hmade
  obtain ⟨b, hb, hnames⟩ := of_toOption_map hmade
  have hidentifier := hall _ s none none b _ hs (Prod.ext hb rfl) "2faCheck" (by simp [hnames])
  exact absurd hidentifier (by decide)

end Blueprint

end ApiMock
