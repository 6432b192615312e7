import ApiMock.Proofs.Blueprint.Contents
import ApiMock.Proofs.Blueprint.Made
import ApiMock.Proofs.Emit.Types
import ApiMock.Proofs.TypeScript.References
/-!
# Blueprint — no type name dangles

A reference is written by what the definitions are called, and a type is
declared under the canonical name of its definition. The two agree: in
every type of a blueprint a reference to a definition is a name that the
types file exports, however many definitions share the name and whether
the reference closes a cycle or not, and any other reference is `any`.
-/

namespace ApiMock

namespace Blueprint

open TypeScript Entries Resolving Sequence

/-- No type name dangles in a table of declarations: it has the canonical
names of the definitions, each with the declaration of a definition of that
name, in which all references are settled. -/
structure SettledTable (defs : Definitions) (table : List (String × Declared)) : Prop where
  names : keys table = (defs.map fun e => Naming.pascal e.1).eraseDups
  declared : ∀ e ∈ table, e.2.declaration.name = e.1 ∧ ∃ node, (e.2.source, node) ∈ defs ∧
    Body.For (Settled (keys defs) (keys table)) node e.2.declaration.body

variable {s : Spec} {config : Option Config} {seed : Option Seed} {b : Blueprint}
  {log : List LogEntry} {defs : Definitions} {table : List (String × Declared)} {p q : Pass}

/-- Where a table has the canonical names, a type that is read off a node is
settled. -/
theorem settled_of_names (hnames : keys table = (defs.map fun e => Naming.pascal e.1).eraseDups)
    (node : Schema) (t : TypeExpr) (ht : TypeExpr.ofNode (keys defs) node = .ok t) :
    Settled (keys defs) (keys table) node t := by
  refine settled_of_ofNode (fun k hk => ?_) ht
  obtain ⟨e, he, rfl⟩ := List.mem_map.mp hk
  rw [hnames, List.mem_eraseDups]
  exact List.mem_map_of_mem he

/-- **A table that was made is settled**, also where nothing else is made. -/
theorem settledTable_of_declareAll (h : (declareAll defs).result p = (.ok table, q)) :
    SettledTable defs table := by
  obtain ⟨-, ds, hds, rfl, -⟩ := of_declareAll h
  have hnames := keys_table hds
  refine ⟨hnames, fun e he => ?_⟩
  obtain ⟨hname, node, hnode, hdeclares⟩ := declares_of_mem_table hds he
  exact ⟨hname, node, hnode, hdeclares.body.mono (settled_of_names hnames)⟩

/-- A name in the table is exported. -/
theorem mem_exports_of_mem_table (htable : SettledTable defs table)
    (hdeclarations : b.declarations = table.map fun e => e.2.declaration) {n : String}
    (hn : n ∈ keys table) : n ∈ Emit.exports b := by
  obtain ⟨e, he, rfl⟩ := List.mem_map.mp hn
  rw [Emit.exports, List.append_assoc]
  refine List.mem_append_right _ (List.mem_append_left _ ?_)
  rw [hdeclarations, ← (htable.declared e he).1]
  exact List.mem_map_of_mem (List.mem_map_of_mem he)

/-- **No type name dangles.** In every declaration that is made of the
definitions, and in the request and the response of every operation, each
reference to a definition is a name in the table of the declarations, each
other reference is `any`, and no type is named otherwise. Every name in the
table is declared by a block of the types file. -/
theorem references_settled (s : Spec) (config : Option Config) (seed : Option Seed) :
    (∀ table q, (declareAll s.schemas).result ⟨[], []⟩ = (.ok table, q) →
      SettledTable s.schemas table) ∧
    ∀ b log, (s.blueprint config seed).outcome = (.ok b, log) →
      ∃ table q, (declareAll s.schemas).result ⟨[], []⟩ = (.ok table, q) ∧
        b.declarations = table.map (fun e => e.2.declaration) ∧
        List.Forall₂ (EndpointTypes.For (Settled (keys s.schemas) (keys table)))
          s.operations b.endpoints ∧
        ∀ n ∈ keys table, ∃ before block after,
          Emit.typesFile b = Emit.unlines (before ++ block ++ after) ∧ Emit.Exports block n := by
  refine ⟨fun table q => settledTable_of_declareAll, fun b log h => ?_⟩
  obtain ⟨ds, routes, hcontents, q, htable⟩ := contents h
  have hsettled := settledTable_of_declareAll htable
  refine ⟨_, q, htable, hcontents.declarations, ?_, fun n hn => ?_⟩
  · exact hcontents.endpoints.imp fun o e he => he.mono (settled_of_names hsettled.names)
  · exact Emit.exists_block_of_mem_exports
      (mem_exports_of_mem_table hsettled hcontents.declarations hn)

/-- Two definitions of one canonical name that refer to each other, a
reference to nothing, and an operation that refers to both kinds. -/
def tangled : Spec where
  info := ⟨"Tangled", "1", none⟩
  servers := []
  operations := [⟨"/stores", "GET", "listStores", true, none, none, [], none,
    [⟨"200", "ok", [("application/json", .object none none none
      [("stores", .array none none none (some (.reference "pet-store" none))),
        ("lost", .reference "nowhere" none)] [])]⟩], []⟩]
  schemas := [("pet-store", .reference "pet_store" none),
    ("pet_store", .object (some "object") none none
      [("branches", .array none none none (some (.reference "pet-store" none))),
        ("lost", .reference "nowhere" none)] [])]

/-- Where names meet, a cycle is closed and a definition is missing. -/
theorem tangled_settled : ∃ b log table q,
    (tangled.blueprint none none).outcome = (.ok b, log) ∧
      (declareAll tangled.schemas).result ⟨[], []⟩ = (.ok table, q) ∧
      SettledTable tangled.schemas table ∧
      b.declarations = table.map (fun e => e.2.declaration) ∧
      List.Forall₂ (EndpointTypes.For (Settled (keys tangled.schemas) (keys table)))
        tangled.operations b.endpoints ∧
      ∀ n ∈ keys table, ∃ before block after,
        Emit.typesFile b = Emit.unlines (before ++ block ++ after) ∧ Emit.Exports block n := by
  -- no description is there to be refused, and no value that is not JSON
  have hschemas : ∀ d ∈ tangled.schemas, d.2.JsonValued := by
    simp [tangled, Schema.JsonValued, Schema.Enumerates]
  have hoperations : ∀ o ∈ tangled.operations, o.JsonValued := by
    intro o ho
    obtain rfl := List.mem_singleton.mp ho
    refine ⟨by simp, by simp, ?_⟩
    simp [Schema.JsonValued, Schema.Enumerates]
  have hcomments : ∀ d ∈ tangled.schemas, d.2.Commented := by
    intro d hd
    have hnone : ∃ c, commentOf none = .ok c := ⟨none, rfl⟩
    rcases List.mem_cons.mp hd with rfl | hd
    · exact ⟨hnone, by simp [Schema.properties]⟩
    · obtain rfl := List.mem_singleton.mp hd
      exact ⟨hnone, by simpa [Schema.properties, Schema.description?] using hnone⟩
  have hroutes : (tangled.routes.toOption.map fun _ => ()) = some () := by decide +kernel
  obtain ⟨routes, hroutes, -⟩ := of_toOption_map hroutes
  have hmade : ∃ b log, (tangled.blueprint none none).outcome = (.ok b, log) :=
    exists_blueprint ⟨hschemas, hoperations⟩ hcomments ⟨routes, hroutes⟩
  obtain ⟨b, log, h⟩ := hmade
  obtain ⟨hsettled, hmakes⟩ := references_settled tangled none none
  obtain ⟨table, q, htable, hblueprint⟩ := hmakes b log h
  exact ⟨b, log, table, q, h, htable, hsettled table q htable, hblueprint⟩

end Blueprint

end ApiMock
