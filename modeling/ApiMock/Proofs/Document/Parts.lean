import ApiMock.Proofs.Sequence
import ApiMock.Spec
/-!
# Document — where its parts are read

An operation and a specification are read field by field, and all fields are
gone through before any result is there. Here it is said once which field each
part of the result comes from.
-/

namespace ApiMock

open Sequence

/-- An operation by the fields that it is read from. -/
structure Operation.ReadFrom (path method : String) (operation document shared : Data)
    (o : Operation) : Prop where
  place : o.path = path ∧ o.method = Naming.upper method
  id : o.idDeclared = false → o.id = Naming.synthesizedId method path
  parameters : ∃ own, operation.field "parameters" = .ok own ∧
    parseParameters document.orEmpty shared own = .ok o.parameters
  body : ∃ entry target, operation.field "requestBody" = .ok entry ∧
    Pointer.deref document.orEmpty entry = .ok target ∧ parseBody target = .ok o.body
  responses : ∃ listed es targets, operation.field "responses" = .ok listed ∧
    listed.orEmpty.entries = .ok es ∧
    (es.mapM fun e => do return (e.1, ← Pointer.deref document.orEmpty e.2)) = .ok targets ∧
    (targets.mapM fun e => parseResponse e.1 e.2) = .ok o.responses

/-- **The fields of an operation.** -/
theorem Operation.readFrom_of_parse {path method : String} {operation document shared : Data}
    {o : Operation} (h : Operation.parse path method operation document shared = .ok o) :
    Operation.ReadFrom path method operation document shared o := by
  obtain ⟨_, -, h⟩ := of_bind_ok h
  obtain ⟨listed, hlisted, h⟩ := of_bind_ok h
  obtain ⟨es, hes, h⟩ := of_bind_ok h
  obtain ⟨targets, htargets, h⟩ := of_bind_ok h
  obtain ⟨_, -, h⟩ := of_bind_ok h
  obtain ⟨_, -, h⟩ := of_bind_ok h
  obtain ⟨own, hown, h⟩ := of_bind_ok h
  obtain ⟨parameters, hparameters, h⟩ := of_bind_ok h
  obtain ⟨entry, hentry, h⟩ := of_bind_ok h
  obtain ⟨target, htarget, h⟩ := of_bind_ok h
  obtain ⟨body, hbody, h⟩ := of_bind_ok h
  obtain ⟨responses, hresponses, h⟩ := of_bind_ok h
  obtain ⟨_, -, h⟩ := of_bind_ok h
  obtain ⟨_, -, h⟩ := of_bind_ok h
  obtain ⟨_, -, h⟩ := of_bind_ok h
  cases h
  refine ⟨⟨rfl, rfl⟩, fun hdeclared => ?_, ⟨own, hown, hparameters⟩,
    ⟨entry, target, hentry, htarget, hbody⟩, ⟨listed, es, targets, hlisted, hes, htargets,
      hresponses⟩⟩
  simp only at hdeclared ⊢
  rw [hdeclared]
  rfl

/-- A specification by the fields that its operations and its definitions are
read from. -/
structure Spec.ReadFrom (document : Data) (s : Spec) : Prop where
  operations : ∃ paths es found, document.field "paths" = .ok paths ∧
    paths.orEmpty.entries = .ok es ∧
    (es.mapM fun e => Spec.parsePath document e.1 e.2) = .ok found ∧ s.operations = found.flatten
  schemas : ∃ components listed es read, document.field "components" = .ok components ∧
    components.orEmpty.field "schemas" = .ok listed ∧ listed.orEmpty.entries = .ok es ∧
    Schema.parseEntries es = .ok read ∧ s.schemas = Data.textKeyed read

/-- **The fields of a document.** -/
theorem Spec.readFrom_of_parse {document : Data} {s : Spec} (h : Spec.parse document = .ok s) :
    Spec.ReadFrom document s := by
  obtain ⟨_, -, h⟩ := of_bind_ok h
  obtain ⟨paths, hpaths, h⟩ := of_bind_ok h
  obtain ⟨items, hitems, h⟩ := of_bind_ok h
  obtain ⟨found, hfound, h⟩ := of_bind_ok h
  obtain ⟨components, hcomponents, h⟩ := of_bind_ok h
  obtain ⟨listed, hlisted, h⟩ := of_bind_ok h
  obtain ⟨es, hes, h⟩ := of_bind_ok h
  obtain ⟨read, hread, h⟩ := of_bind_ok h
  obtain ⟨_, -, h⟩ := of_bind_ok h
  obtain ⟨_, -, h⟩ := of_bind_ok h
  obtain ⟨_, -, h⟩ := of_bind_ok h
  obtain ⟨_, -, h⟩ := of_bind_ok h
  obtain ⟨_, -, h⟩ := of_bind_ok h
  cases h
  exact ⟨⟨paths, items, found, hpaths, hitems, hfound, rfl⟩,
    ⟨components, listed, es, read, hcomponents, hlisted, hes, hread, rfl⟩⟩

end ApiMock
