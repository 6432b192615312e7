import ApiMock.Proofs.Naming.Identifier
import ApiMock.Proofs.Route.Groups
import ApiMock.Proofs.TypeScript.Arguments
import ApiMock.Route.Code
/-!
# Route — methods are well scoped

The text of an argument list is read argument by argument, since neither a
name nor a type of a route cuts it: names are identifiers, types are flat,
and a key of the query object is an identifier or stands in quotes. What is
read are the names that the method logs, none but the last may be left out,
and what is passed on to the store mentions none but them.
-/

namespace ApiMock

open TypeScript

/-! ## Names and types in a list -/

/-- A text without a mark that a list or an expression is read by. A line
feed is none of them: it may stand at the end of an argument name. -/
def Unmarked (cs : List Char) : Prop :=
  ∀ c ∈ cs, c ∉ [' ', '(', ')', ',', '.', '?', ':', '\x7b', '\x7d', '\'', '"']

namespace Unmarked

variable {cs : List Char}

theorem balanced (h : Unmarked cs) : Balanced cs := by
  have hmarks : ['"', '\x7b', '\x7d', ','] ⊆
      [' ', '(', ')', ',', '.', '?', ':', '\x7b', '\x7d', '\'', '"'] := by decide
  exact .of_plain fun c hc hmark => h c hc (hmarks hmark)

theorem inName (h : Unmarked cs) : ∀ c ∈ cs, c ≠ ' ' ∧ endsName c = false := by
  intro c hc
  have hmark := h c hc
  simp only [List.mem_cons, List.not_mem_nil, or_false, not_or] at hmark
  simp [endsName, hmark]

theorem inWord (h : Unmarked cs) : ∀ c ∈ cs, endsWord c = false := by
  intro c hc
  have hmark := h c hc
  simp only [List.mem_cons, List.not_mem_nil, or_false, not_or] at hmark
  simp [endsWord, hmark]

end Unmarked

/-- A text of characters that may stand in identifiers, and line feeds. -/
theorem unmarked_of_parts {cs : List Char}
    (h : ∀ c ∈ cs, Naming.isIdentifierPart c = true ∨ c = '\n') : Unmarked cs := by
  have hmarks : ∀ c ∈ [' ', '(', ')', ',', '.', '?', ':', '\x7b', '\x7d', '\'', '"'],
      ¬ (Naming.isIdentifierPart c = true ∨ c = '\n') := by decide
  exact fun c hc hmark => hmarks c hmark (h c hc)

theorem unmarked_identifier {name : String} : Unmarked (Naming.identifier name).toList :=
  unmarked_of_parts Naming.isIdentifierPart_identifier

/-- A key of an object type is balanced, whatever the name is. -/
theorem balanced_propertyKey {name : String} {required : Bool} :
    Balanced (propertyKey name required).toList := by
  have htoken : Balanced (keyToken name).toList := by
    rw [keyToken]
    split
    · rename_i hname
      exact (unmarked_of_parts (Naming.isIdentifierPart_or_of_mem hname)).balanced
    · exact balanced_quote name
  rw [propertyKey]
  split
  · exact htoken
  · rw [String.toList_append]
    exact htoken.append (.of_plain (by decide))

/-- The types that show without following references. -/
def flatTypes : List TypeExpr :=
  [.any, .array .any, .keyword .string, .keyword .number, .keyword .boolean]

theorem ofForm_mem_flatTypes (s : Schema) : TypeExpr.ofForm s ∈ flatTypes := by
  have hdeclared : ∀ declared, TypeExpr.ofDeclared declared ∈ flatTypes := by
    intro declared
    rw [TypeExpr.ofDeclared]
    cases declared.bind Keyword.ofDeclared? with
    | none => simp [flatTypes]
    | some k => cases k <;> simp [flatTypes]
  cases s with
  | primitive | enumeration => exact hdeclared _
  | _ => simp [TypeExpr.ofForm, flatTypes]

theorem balanced_of_mem_flatTypes {t : TypeExpr} (h : t ∈ flatTypes) :
    Balanced t.render.toList := by
  have hplain : ∀ c ∈ t.render.toList, c ∉ ['"', '\x7b', '\x7d', ','] := by
    simp only [flatTypes, List.mem_cons, List.not_mem_nil, or_false] at h
    rcases h with rfl | rfl | rfl | rfl | rfl <;> decide
  exact .of_plain hplain

/-! ## Arguments -/

namespace Argument

variable {a : Argument}

/-- An argument with an unmarked name is read as it is. -/
theorem read_render (h : Unmarked a.name.toList) :
    readArgument a.render.toList = (a.name, a.optional) := by
  have hcolon : endsName ':' = true ∧ endsName '?' = true := by decide
  rw [render, String.toList_append, String.toList_append, String.toList_append,
    String.toList_append, List.append_assoc, List.append_assoc, List.append_assoc]
  cases a.optional with
  | true => exact readArgument_append h.inName hcolon.2
  | false => exact readArgument_append h.inName hcolon.1

/-- And it is balanced if its type is. -/
theorem balanced_render (h : Unmarked a.name.toList) (htype : Balanced a.type.toList) :
    Balanced a.render.toList := by
  rw [render, String.toList_append, String.toList_append, String.toList_append,
    String.toList_append]
  have hmark : Balanced (if a.optional then "?" else "").toList := by
    split <;> exact .of_plain (by decide)
  have hcolon : Balanced ": ".toList := .of_plain (by decide)
  have hdefault : Balanced (if a.defaultsToEmpty then " = \x7b\x7d" else "").toList := by
    split
    · have hequals : Balanced " = ".toList := .of_plain (by decide)
      exact hequals.append Balanced.nil.braces
    · exact .nil
  exact (((h.balanced.append hmark).append hcolon).append htype).append hdefault

theorem render_ne_empty : a.render ≠ "" := by
  intro h
  have hcolon : ':' ∈ a.render.toList := by
    simp [render, String.toList_append]
  rw [h] at hcolon
  cases hcolon

end Argument

namespace Route

variable {o : Operation} {r : Route} {a : Argument}

/-! ## Routes of operations -/

/-- The types of the parameters of a route are flat. -/
structure Flat (r : Route) : Prop where
  path : ∀ p ∈ r.pathParams, p.type ∈ flatTypes
  query : ∀ q ∈ r.queryParams, q.type ∈ flatTypes

/-- **The route of an operation has flat types**: what a parameter declares
is read without following references. -/
theorem flat_of_classify (h : classify o = .ok r) : r.Flat := by
  have htaken := of_classify h
  refine ⟨fun p hp => ?_, fun q hq => ?_⟩
  · rw [htaken.pathParams] at hp
    obtain ⟨name, -, rfl⟩ := List.mem_map.mp hp
    cases (declaredPathParams o).lookup name with
    | none => simp [flatTypes]
    | some declared => exact ofForm_mem_flatTypes declared.schema
  · rw [htaken.queryParams] at hq
    obtain ⟨declared, -, rfl⟩ := List.mem_map.mp hq
    exact ofForm_mem_flatTypes declared.schema

/-- The shape of the query is balanced: its fields stand between braces, and
they end in semicolons. -/
theorem Flat.balanced_queryShape (h : r.Flat) : Balanced r.queryShape.toList := by
  have hblank : Balanced " ".toList := .of_plain (by decide)
  have hcolon : Balanced ": ".toList := .of_plain (by decide)
  have hend : Balanced ";".toList := .of_plain (by decide)
  have hfields : Balanced (String.intercalate " " (r.queryParams.map fun q =>
      propertyKey q.name q.required ++ ": " ++ q.type.render ++ ";")).toList := by
    rw [String.toList_intercalate]
    refine .intercalate hblank fun part hpart => ?_
    rw [List.map_map] at hpart
    obtain ⟨q, hq, rfl⟩ := List.mem_map.mp hpart
    have htype : Balanced q.type.render.toList := balanced_of_mem_flatTypes (h.query q hq)
    rw [Function.comp_apply, String.toList_append, String.toList_append, String.toList_append]
    exact ((balanced_propertyKey.append hcolon).append htype).append hend
  have hbraces := ((hblank.append hfields).append hblank).braces
  rw [queryShape, String.toList_append, String.toList_append]
  simpa using hbraces

/-! ## The arguments of a method -/

/-- An argument stands for a path parameter, the query or the body. -/
theorem mem_arguments (h : a ∈ r.arguments) :
    (∃ p ∈ r.pathParams, a = ⟨Naming.identifier p.name, false, p.type.render, false⟩) ∨
      (r.queryArgument? = some a ∧ a.name = queryName ∧ a.type = r.queryShape) ∨
      a = ⟨bodyName, false, "any", false⟩ := by
  rw [arguments, List.mem_append, List.mem_append, List.mem_map] at h
  rcases h with (⟨p, hp, rfl⟩ | h) | h
  · exact .inl ⟨p, hp, rfl⟩
  · rw [Option.mem_toList] at h
    refine .inr (.inl ⟨h, ?_⟩)
    rw [queryArgument?] at h
    split_ifs at h <;> cases h <;> exact ⟨rfl, rfl⟩
  · rw [Option.mem_toList, bodyArgument?] at h
    split_ifs at h
    cases h
    exact .inr (.inr rfl)

theorem unmarked_of_mem_arguments (h : a ∈ r.arguments) : Unmarked a.name.toList := by
  rcases mem_arguments h with ⟨p, -, rfl⟩ | ⟨-, hname, -⟩ | rfl
  · exact unmarked_identifier
  · rw [hname]
    exact unmarked_of_parts (by decide)
  · exact unmarked_of_parts (by decide)

theorem Flat.balanced_type (hflat : r.Flat) (h : a ∈ r.arguments) : Balanced a.type.toList := by
  rcases mem_arguments h with ⟨p, hp, rfl⟩ | ⟨-, -, htype⟩ | rfl
  · exact balanced_of_mem_flatTypes (hflat.path p hp)
  · rw [htype]
    exact hflat.balanced_queryShape
  · exact .of_plain (by decide)

/-- **The argument list is read argument by argument.** -/
theorem Flat.readArguments_signature (h : r.Flat) :
    readArguments r.signature = r.arguments.map fun a => (a.name, a.optional) := by
  have hbalanced : ∀ part ∈ r.arguments.map Argument.render, Balanced part.toList := by
    intro part hpart
    obtain ⟨a, ha, rfl⟩ := List.mem_map.mp hpart
    exact Argument.balanced_render (unmarked_of_mem_arguments ha) (h.balanced_type ha)
  have hsome : ∀ part ∈ r.arguments.map Argument.render, part ≠ "" := by
    intro part hpart
    obtain ⟨a, -, rfl⟩ := List.mem_map.mp hpart
    exact Argument.render_ne_empty
  rw [signature, readArguments_intercalate hbalanced hsome, List.map_map]
  exact List.map_congr_left fun a ha => Argument.read_render (unmarked_of_mem_arguments ha)

/-- The names of the arguments are the logged ones. -/
theorem map_name_arguments : r.arguments.map Argument.name = r.loggedNames := by
  have hquery : r.queryArgument?.toList.map Argument.name =
      if r.queryParams.isEmpty then [] else [queryName] := by
    rw [queryArgument?]
    split_ifs <;> rfl
  have hbody : r.bodyArgument?.toList.map Argument.name =
      if r.hasBody then [bodyName] else [] := by
    rw [bodyArgument?]
    split_ifs <;> rfl
  rw [arguments, List.map_append, List.map_append, List.map_map, hquery, hbody, loggedNames]
  rfl

/-- An argument that may be left out is the query of a route without a body. -/
theorem of_optional (h : a ∈ r.arguments) (hoptional : a.optional = true) :
    r.hasBody = false ∧ r.queryArgument? = some a := by
  rcases mem_arguments h with ⟨p, -, rfl⟩ | ⟨hquery, -⟩ | rfl
  · cases hoptional
  · refine ⟨?_, hquery⟩
    rw [queryArgument?] at hquery
    split_ifs at hquery with _ _ hbody <;> cases hquery
    · cases hoptional
    · cases hoptional
    · exact Bool.eq_false_iff.mpr hbody
  · cases hoptional

/-- **No argument but the last may be left out.** -/
theorem optional_of_mem_dropLast (h : a ∈ r.arguments.dropLast) : a.optional = false := by
  by_contra hoptional
  rw [Bool.not_eq_false] at hoptional
  obtain ⟨hbody, hquery⟩ := of_optional (List.dropLast_subset _ h) hoptional
  -- without a body the query comes last, so the others are path parameters
  have hpath : r.arguments.dropLast =
      r.pathParams.map fun p => ⟨Naming.identifier p.name, false, p.type.render, false⟩ := by
    simp [arguments, bodyArgument?, hbody, hquery]
  rw [hpath] at h
  obtain ⟨p, -, rfl⟩ := List.mem_map.mp h
  cases hoptional

/-! ## What is passed on to the store -/

theorem identifier_mem_loggedNames {p : PathParam} (h : p ∈ r.pathParams) :
    Naming.identifier p.name ∈ r.loggedNames := by
  rw [loggedNames, List.append_assoc]
  exact List.mem_append_left _ (List.mem_map_of_mem h)

theorem queryName_mem_loggedNames (h : ¬ r.queryParams.isEmpty = true) :
    queryName ∈ r.loggedNames := by
  simp [loggedNames, h]

theorem bodyName_mem_loggedNames (h : r.hasBody = true) : bodyName ∈ r.loggedNames := by
  simp [loggedNames, h]

/-- The id in the body mentions the body only if there is one. -/
theorem scoped_bodyId : Scoped r.loggedNames r.bodyId := by
  rw [bodyId]
  split_ifs with hbody
  · exact .of_one (by decide) (by decide) (bodyName_mem_loggedNames hbody)
  · exact .of_none (by decide) (by decide)

/-- **The id is that of a path parameter**, or it is taken from the body. -/
theorem scoped_idExpression : Scoped r.loggedNames r.idExpression := by
  rw [idExpression]
  cases hid : r.idParam? with
  | none => exact scoped_bodyId
  | some name =>
    dsimp only
    split_ifs
    · exact scoped_bodyId
    · obtain ⟨p, hp, rfl⟩ := Option.map_eq_some_iff.mp hid
      exact .call (identifier_mem_loggedNames (List.mem_of_getLast? hp))
        Naming.identifier_ne_empty unmarked_identifier.inWord

theorem scoped_body :
    Scoped r.loggedNames (if r.hasBody then bodyName else "\x7b\x7d") := by
  split_ifs with hbody
  · exact .of_one (by decide) (by decide) (bodyName_mem_loggedNames hbody)
  · exact .of_none (by decide) (by decide)

theorem scoped_query :
    Scoped r.loggedNames (if r.queryParams.isEmpty then "" else queryName) := by
  split_ifs with hquery
  · exact .of_none (by decide) (by decide)
  · exact .of_one (by decide) (by decide) (queryName_mem_loggedNames hquery)

/-- What is passed on mentions logged names only, whatever the intent is. -/
theorem scoped_storeArguments : Scoped r.loggedNames r.storeArguments := by
  rw [storeArguments]
  cases r.intent with
  | list | custom => exact scoped_query
  | getById | delete => exact scoped_idExpression
  | create => exact scoped_body
  | update => exact scoped_idExpression.append scoped_body

/-- **Every method is well scoped.** Its arguments are, in their order, what
it logs; what it passes on to the store mentions none but them; and none but
the last of them may be left out. -/
theorem methods_scoped (h : classify o = .ok r) :
    (readArguments r.signature).map Prod.fst = r.loggedNames ∧
      (∀ v ∈ variablesOf r.storeArguments, v ∈ (readArguments r.signature).map Prod.fst) ∧
      ∀ argument ∈ (readArguments r.signature).dropLast, argument.2 = false := by
  have hread := (flat_of_classify h).readArguments_signature
  have hnames : (readArguments r.signature).map Prod.fst = r.loggedNames := by
    rw [hread, List.map_map]
    exact map_name_arguments
  refine ⟨hnames, ?_, ?_⟩
  · rw [hnames]
    exact scoped_storeArguments.bound
  · intro argument hargument
    rw [hread, ← List.map_dropLast] at hargument
    obtain ⟨a, ha, rfl⟩ := List.mem_map.mp hargument
    exact optional_of_mem_dropLast ha

/-- An operation that changes a record, with a query whose keys need quotes. -/
def relabelling : Operation where
  path := "/pets/\x7bpet-id\x7d"
  method := "PATCH"
  id := "patch_pets_pet-id"
  idDeclared := false
  summary := none
  description := none
  parameters := [⟨"dry, run?", "query", false, .primitive "boolean" none none, none⟩,
    ⟨"pet-id", "path", true, .primitive "string" none none, none⟩,
    ⟨"labels", "query", false, .array none none none none, none⟩]
  body := some ⟨true, []⟩
  responses := []
  tags := ["pets"]

/-- The commas and the question mark in the key cut nothing, and the query,
which may be left out, has a default in front of the body. -/
theorem relabelling_scoped :
    ∃ r, classify relabelling = .ok r ∧
      r.signature = "petId: string, params: \x7b \"dry, run?\"?: boolean; labels?: any[]; \x7d " ++
        "= \x7b\x7d, body: any" ∧
      (readArguments r.signature).map Prod.fst = ["petId", "params", "body"] ∧
      variablesOf r.storeArguments = ["petId", "body"] ∧
      (∀ v ∈ variablesOf r.storeArguments, v ∈ ["petId", "params", "body"]) ∧
      ∀ argument ∈ (readArguments r.signature).dropLast, argument.2 = false := by
  have hcode : (classify relabelling).toOption.map
      (fun r => (r.signature, r.loggedNames, r.storeArguments)) =
      some ("petId: string, params: \x7b \"dry, run?\"?: boolean; labels?: any[]; \x7d " ++
        "= \x7b\x7d, body: any", ["petId", "params", "body"], "String(petId), body") := by decide +kernel
  obtain ⟨r, h, hr⟩ := Sequence.of_toOption_map hcode
  obtain ⟨hsignature, hlogged, hstore⟩ := (Prod.mk.inj hr).imp_right Prod.mk.inj
  obtain ⟨hnames, hbound, hlast⟩ := methods_scoped h
  have hread : (readArguments r.signature).map Prod.fst = ["petId", "params", "body"] :=
    hnames.trans hlogged
  refine ⟨r, h, hsignature, hread, ?_, ?_, hlast⟩
  · rw [hstore]
    decide
  · rwa [hread] at hbound

end Route

end ApiMock
