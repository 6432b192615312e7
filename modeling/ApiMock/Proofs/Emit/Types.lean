import ApiMock.Emit.Types
import ApiMock.Proofs.Sequence
/-!
# Emit — what the types file exports

The types file exports the common types, one type for every declaration,
and for every operation one for its response and, if it has a request, one
for that. After a header the file is a block of lines for each of them, in
this order (`typesFile_blocks`), and a block opens with the export.
-/

namespace ApiMock

open TypeScript Sequence

/-- The names under which the types of an operation are exported. -/
def EndpointTypes.exports (e : EndpointTypes) : List String :=
  (if e.request.isSome then [e.name ++ "Request"] else []) ++ [e.name ++ "Response"]

namespace Emit

/-- The names of the types that do not depend on the specification. -/
def commonNames : List String :=
  ["ApiResponse", "ApiError", "PaginatedResponse"]

/-- Everything the types file exports, in order. -/
def exports (b : Blueprint) : List String :=
  commonNames ++ b.declarations.map Declaration.name ++ b.endpoints.flatMap EndpointTypes.exports

/-- A block of lines exports a type of this name: behind a comment, if there
is one, its first line opens an interface or an alias of the name, which
ends at a blank or at the parameters of the type. -/
def Exports (block : List String) (name : String) : Prop :=
  ∃ comment lead after rest,
    block = (commentLine "" comment ++ (lead ++ (name ++ after))) :: rest ∧
      lead ∈ ["export interface ", "export type "] ∧
      (after.toList.head? = some ' ' ∨ after.toList.head? = some '<')

variable {b : Blueprint} {name : String}

/-! ## The blocks -/

/-- The common types are three blocks. -/
theorem commonTypes_blocks : ∃ blocks, commonTypes = ["", "// Common types"] ++ blocks.flatten ∧
    List.Forall₂ Exports blocks commonNames := by
  refine ⟨[(commonTypes.drop 2).take 7, (commonTypes.drop 9).take 6, commonTypes.drop 15], rfl,
    .cons ?response (.cons ?error (.cons ?paginated .nil))⟩
  case response =>
    exact ⟨none, "export interface ", "<T = any> \x7b", _, rfl, by decide, by decide⟩
  case error =>
    exact ⟨none, "export interface ", " \x7b", _, rfl, by decide, by decide⟩
  case paginated =>
    exact ⟨none, "export interface ", "<T> \x7b", _, rfl, by decide, by decide⟩

/-- A declaration is a block. -/
theorem exports_declaration (d : Declaration) : Exports [d.render, ""] d.name := by
  cases hbody : d.body with
  | interface members =>
    refine ⟨d.comment, "export interface ",
      " \x7b\n" ++ String.join (members.map Member.render) ++ "\x7d", [""], ?_, by decide, .inl ?_⟩
    · rw [Declaration.render, hbody]
      simp only [String.append_assoc]
    · simp
  | «alias» t =>
    refine ⟨d.comment, "export type ", " = " ++ t.render ++ ";", [""], ?_, by decide, .inl ?_⟩
    · rw [Declaration.render, hbody]
      simp only [String.append_assoc]
    · simp

/-- A block that opens with the export itself. -/
theorem exports_of_eq {line : String} {rest : List String} (lead after : String)
    (hline : line.toList = lead.toList ++ (name.toList ++ after.toList))
    (hlead : lead ∈ ["export interface ", "export type "])
    (hafter : after.toList.head? = some ' ' ∨ after.toList.head? = some '<') :
    Exports (line :: rest) name := by
  have hopens : line = commentLine "" none ++ (lead ++ (name ++ after)) := by
    rw [← String.toList_inj, hline, commentLine, String.toList_append, String.toList_append,
      String.toList_append]
    rfl
  exact ⟨none, lead, after, rest, by rw [hopens], hlead, hafter⟩

/-- The types of an operation are one block or two. -/
theorem endpointLines_blocks (e : EndpointTypes) :
    ∃ blocks, endpointLines e = blocks.flatten ∧ List.Forall₂ Exports blocks e.exports := by
  have hresponse : Exports
      ["export type " ++ e.name ++ "Response = ApiResponse<" ++ e.responseText ++ ">;", ""]
      (e.name ++ "Response") :=
    exports_of_eq "export type " (" = ApiResponse<" ++ e.responseText ++ ">;") (by simp)
      (by decide) (.inl (by simp))
  rw [EndpointTypes.exports]
  cases hrequest : e.request with
  | none =>
    refine ⟨[_], ?_, .cons hresponse .nil⟩
    rw [endpointLines, hrequest]
    rfl
  | some r =>
    have hopens : Exports (requestLines e.name r) (e.name ++ "Request") := by
      rw [requestLines, List.append_assoc, List.append_assoc, List.append_assoc,
        List.singleton_append]
      exact exports_of_eq "export interface " " \x7b" (by simp) (by decide) (.inl (by simp))
    refine ⟨[requestLines e.name r, _], ?_, .cons hopens (.cons hresponse .nil)⟩
    rw [endpointLines, hrequest]
    rfl

/-- Blocks for the parts of a list are blocks for all of it. -/
theorem flatMap_blocks {α : Type} (lines names : α → List String)
    (h : ∀ x, ∃ blocks, lines x = blocks.flatten ∧ List.Forall₂ Exports blocks (names x))
    (xs : List α) : ∃ blocks, xs.flatMap lines = blocks.flatten ∧
      List.Forall₂ Exports blocks (xs.flatMap names) := by
  induction xs with
  | nil => exact ⟨[], rfl, .nil⟩
  | cons x rest ih =>
    obtain ⟨blocks, hlines, hblocks⟩ := h x
    obtain ⟨others, hothers, hrest⟩ := ih
    refine ⟨blocks ++ others, ?_, ?_⟩
    · rw [List.flatMap_cons, hlines, hothers, List.flatten_append]
    · rw [List.flatMap_cons]
      exact List.rel_append hblocks hrest

/-- **The types file is a header and a block for everything it exports**,
in order. -/
theorem typesFile_blocks (b : Blueprint) : ∃ common declared operations : List (List String),
    typesFile b = unlines (typesHeader b.info ++ ["", "// Common types"] ++ common.flatten ++
      declared.flatten ++ ["// Endpoint-specific types", ""] ++ operations.flatten) ∧
      List.Forall₂ Exports (common ++ declared ++ operations) (exports b) := by
  obtain ⟨common, hcommon, hcommonNames⟩ := commonTypes_blocks
  obtain ⟨declared, hdeclared, hdeclaredNames⟩ :=
    flatMap_blocks (fun d : Declaration => [d.render, ""]) (fun d => [d.name])
      (fun d => ⟨[_], rfl, .cons (exports_declaration d) .nil⟩) b.declarations
  obtain ⟨operations, hoperations, hoperationNames⟩ :=
    flatMap_blocks endpointLines EndpointTypes.exports endpointLines_blocks b.endpoints
  refine ⟨common, declared, operations, ?_, ?_⟩
  · rw [typesFile, typesLines, hcommon, hdeclared, hoperations, ← List.append_assoc]
  · rw [← List.map_eq_flatMap] at hdeclaredNames
    exact List.rel_append (List.rel_append hcommonNames hdeclaredNames) hoperationNames

/-- So what is exported has its block in the file. -/
theorem exists_block_of_mem_exports (h : name ∈ exports b) : ∃ before block after,
    typesFile b = unlines (before ++ block ++ after) ∧ Exports block name := by
  obtain ⟨common, declared, operations, hfile, hblocks⟩ := typesFile_blocks b
  obtain ⟨block, hplace⟩ := exists_beside_right hblocks h
  -- the header and the line between the parts are blocks that export nothing
  have hall : typesFile b = unlines
      ([typesHeader b.info ++ ["", "// Common types"]] ++ (common ++ declared) ++
        [["// Endpoint-specific types", ""]] ++ operations).flatten := by
    rw [hfile]
    simp
  have hin : block ∈ [typesHeader b.info ++ ["", "// Common types"]] ++ (common ++ declared) ++
      [["// Endpoint-specific types", ""]] ++ operations := by
    rcases List.mem_append.mp (List.of_mem_zip hplace).1 with hin | hin
    · exact List.mem_append_left _ (List.mem_append_left _ (List.mem_append_right _ hin))
    · exact List.mem_append_right _ hin
  obtain ⟨earlier, later, hblocks'⟩ := List.append_of_mem hin
  refine ⟨earlier.flatten, block, later.flatten, ?_, List.forall₂_zip hblocks hplace⟩
  rw [hall, hblocks', List.flatten_append, List.flatten_cons, List.append_assoc]

end Emit

end ApiMock
