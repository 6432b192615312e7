import ApiMock.Proofs.Blueprint.Contents
import ApiMock.Proofs.Document.Parts
/-!
# Document — its operations, and what becomes of them

A document writes an operation in a slot: at a path, under a method that is
not null. The operations of a specification are read from the slots of its
document, one for each and in their order (`Slot.reads_of_parse`). The
groups share out their routes: a group has those of its operations, still
in their order, and there is no route besides (`operations_kept`).
-/

namespace ApiMock

open Entries Sequence

/-- The path items of a document, by their paths. -/
def Data.pathItems (document : Data) : List (Scalar × Data) :=
  match document.field? "paths" with
  | some (.map es) => es
  | _ => []

/-- A place of a document where an operation is written, with the parameters
that the path has for all its operations. -/
structure Slot where
  path : String
  method : String
  operation : Data
  shared : Data

namespace Slot

/-- The slot of a method of a path, if something is written there. -/
def ofMethod? (path : String) (item : Data) (method : String) : Option Slot :=
  match item.field? method with
  | none | some (.scalar .null) => none
  | some operation => some ⟨path, method, operation, (item.field? "parameters").getD .null⟩

/-- The slots of a path, in the order of the methods. -/
def ofItem (path : Scalar) (item : Data) : List Slot :=
  match path with
  | .str path => Spec.methods.filterMap (ofMethod? path item)
  | _ => []

/-- The slots of a document, in the order of its paths. -/
def ofDocument (document : Data) : List Slot :=
  document.pathItems.flatMap fun e => ofItem e.1 e.2

/-- The path and the method of a slot, as its route has them. -/
def place (w : Slot) : String × String :=
  (w.path, Naming.upper w.method)

/-- The operation of a slot is read. -/
def Reads (document : Data) (w : Slot) (o : Operation) : Prop :=
  Operation.parse w.path w.method w.operation document w.shared = .ok o

variable {document item : Data} {path : Scalar} {w : Slot} {o : Operation}

theorem of_ofMethod? {p method : String} (h : ofMethod? p item method = some w) :
    w.path = p ∧ w.method = method ∧ item.field? method = some w.operation ∧
      w.shared = (item.field? "parameters").getD .null := by
  rw [ofMethod?] at h
  split at h
  · cases h
  · cases h
  · rename_i operation _ hoperation
    cases h
    exact ⟨rfl, rfl, hoperation, rfl⟩

/-- A slot is one of the path, under a method that has operations. -/
theorem of_mem_ofItem (h : w ∈ ofItem path item) :
    path = .str w.path ∧ w.method ∈ Spec.methods ∧ item.field? w.method = some w.operation ∧
      w.shared = (item.field? "parameters").getD .null := by
  cases path with
  | str p =>
    obtain ⟨method, hmethod, hw⟩ := List.mem_filterMap.mp h
    obtain ⟨rfl, rfl, hoperation, hshared⟩ := of_ofMethod? hw
    exact ⟨rfl, hmethod, hoperation, hshared⟩
  | _ => cases h

/-- A slot of a document is one of a path item. -/
theorem exists_of_mem_ofDocument (h : w ∈ ofDocument document) :
    ∃ item, (.str w.path, item) ∈ document.pathItems ∧ w.method ∈ Spec.methods ∧
      item.field? w.method = some w.operation ∧
      w.shared = (item.field? "parameters").getD .null := by
  obtain ⟨e, he, hw⟩ := List.mem_flatMap.mp h
  obtain ⟨hpath, h⟩ := of_mem_ofItem hw
  exact ⟨e.2, hpath ▸ he, h⟩

/-- What is written at a path under a method, and is not null, has a slot. -/
theorem mem_ofDocument {p method : String} {operation : Data}
    (hpath : (.str p, item) ∈ document.pathItems) (hmethod : method ∈ Spec.methods)
    (hoperation : item.field? method = some operation) (hnull : operation.isNull = false) :
    ⟨p, method, operation, (item.field? "parameters").getD .null⟩ ∈ ofDocument document := by
  refine List.mem_flatMap.mpr ⟨_, hpath, List.mem_filterMap.mpr ⟨method, hmethod, ?_⟩⟩
  rw [ofMethod?, hoperation]
  split
  · rename_i heq
    cases heq
  · rename_i heq
    cases heq
    cases hnull
  · rename_i heq
    cases heq
    rfl

/-- The methods are different words in upper case as well. -/
theorem nodup_upper_methods : (Spec.methods.map Naming.upper).Nodup := by
  decide +kernel

/-- A method in upper case is in upper case. -/
theorem upper_upper {method : String} (h : method ∈ Spec.methods) :
    Naming.upper (Naming.upper method) = Naming.upper method := by
  have hall : ∀ m ∈ Spec.methods, Naming.upper (Naming.upper m) = Naming.upper m := by
    decide +kernel
  exact hall method h

/-- No two slots of a path have one method. -/
theorem nodup_place_ofItem : ((ofItem path item).map place).Nodup := by
  cases path with
  | str p =>
    have hsublist : ∀ methods : List String,
        ((methods.filterMap (ofMethod? p item)).map place).Sublist
          (methods.map fun m => (p, Naming.upper m)) := by
      intro methods
      induction methods with
      | nil => exact List.Sublist.slnil
      | cons m rest ih =>
        rw [List.filterMap_cons, List.map_cons]
        split
        · exact ih.cons _
        · rename_i w hw
          obtain ⟨hpath, hmethod, -⟩ := of_ofMethod? hw
          rw [List.map_cons, place, hpath, hmethod]
          exact ih.cons_cons _
    refine (hsublist Spec.methods).nodup ?_
    have hmap : (Spec.methods.map fun m => (p, Naming.upper m)) =
        (Spec.methods.map Naming.upper).map (Prod.mk p) := by
      rw [List.map_map]
      rfl
    rw [hmap]
    exact nodup_upper_methods.map fun _ _ h => (Prod.mk.inj h).2
  | _ => exact List.nodup_nil

/-- **No two slots have one path and one method**, if the paths are
different. -/
theorem nodup_place (h : (keys document.pathItems).Nodup) :
    ((ofDocument document).map place).Nodup := by
  rw [ofDocument, List.map_flatMap, List.nodup_flatMap]
  refine ⟨fun e _ => nodup_place_ofItem, ?_⟩
  refine (List.pairwise_map.mp h).imp fun {e f} hne => ?_
  rw [Function.onFun, List.disjoint_left]
  intro x he hf
  obtain ⟨w, hw, rfl⟩ := List.mem_map.mp he
  obtain ⟨w', hw', hplace⟩ := List.mem_map.mp hf
  have hpath : w'.path = w.path := (Prod.mk.inj hplace).1
  exact hne ((of_mem_ofItem hw).1.trans (hpath ▸ (of_mem_ofItem hw').1.symm))

end Slot

/-! ## What is read from the slots -/

namespace Slot

variable {document item : Data} {path : Scalar} {w : Slot} {o : Operation}

/-- **An operation says where it was read**: it has the path and the method
of its slot, and an id that was not declared is made of the two. -/
theorem Reads.origin (h : w.Reads document o) :
    o.path = w.path ∧ o.method = Naming.upper w.method ∧
      (o.idDeclared = false → o.id = Naming.synthesizedId w.method w.path) := by
  have hread := Operation.readFrom_of_parse h
  exact ⟨hread.place.1, hread.place.2, hread.id⟩

/-- What a path item counts as false has no slots. -/
theorem ofItem_eq_nil (h : item.truthy = false) : ofItem path item = [] := by
  have hnone : ∀ p, ofMethod? p item = fun _ => none := by
    intro p
    funext method
    cases item with
    | map es =>
      obtain rfl : es = [] := by simpa [Data.truthy] using h
      rfl
    | _ => rfl
  cases path with
  | str p => rw [ofItem, hnone, List.filterMap_none]
  | _ => rfl

/-- Under a method stands an operation exactly if it is a slot. -/
theorem reads_of_parseMethod {p method : String} {es : List (Scalar × Data)}
    {found : Option Operation}
    (h : Spec.parseMethod document p (.map es) ((Data.lookup "parameters" es).getD .null) method =
      .ok found) :
    Option.Rel (Reads document) (ofMethod? p (.map es) method) found := by
  obtain ⟨value, hvalue, h⟩ := of_bind_ok h
  obtain rfl : (Data.lookup method es).getD .null = value := Except.ok.inj hvalue
  rw [ofMethod?, Data.field?]
  cases hlookup : Data.lookup method es with
  | none =>
    rw [hlookup] at h
    cases h
    exact .none
  | some operation =>
    rw [hlookup, Option.getD_some] at h
    split at h
    · cases h
      exact .none
    · rename_i hnull
      obtain ⟨o, ho, rfl⟩ := of_map_ok h
      split
      · rename_i heq
        cases heq
      · rename_i heq
        cases heq
        exact absurd rfl hnull
      · rename_i heq
        cases heq
        exact .some ho

/-- **The operations of a path are read from its slots.** -/
theorem reads_of_parsePath {os : List Operation} (h : Spec.parsePath document path item = .ok os) :
    List.Forall₂ (Reads document) (ofItem path item) os := by
  rw [Spec.parsePath] at h
  split at h
  · obtain ⟨shared, hshared, h⟩ := of_bind_ok h
    obtain ⟨p, hp, h⟩ := of_bind_ok h
    obtain ⟨found, hfound, h⟩ := of_bind_ok h
    cases h
    obtain ⟨es, hes, hlookup⟩ := of_bind_ok hshared
    cases hlookup
    cases item with
    | map es' =>
      cases hes
      cases path with
      | str text =>
        cases hp
        refine List.rel_filterMap (fun method found hmethod => ?_) (forall₂_of_mapM hfound)
        exact reads_of_parseMethod hmethod
      | _ => cases hp
    | _ => cases hes
  · rename_i hfalse
    cases h
    rw [ofItem_eq_nil (by simpa using hfalse)]
    exact .nil

/-- The path items are those that are gone through. -/
theorem pathItems_eq {paths : Data} {es : List (Scalar × Data)}
    (hpaths : document.field "paths" = .ok paths) (hes : paths.orEmpty.entries = .ok es) :
    document.pathItems = es := by
  obtain ⟨fields, hfields, hlookup⟩ := of_bind_ok hpaths
  cases document with
  | map fs =>
    cases hfields
    cases hlookup
    rw [Data.pathItems, Data.field?]
    cases h : Data.lookup "paths" fields with
    | none =>
      rw [h] at hes
      cases hes
      rfl
    | some d =>
      rw [h, Option.getD_some, Data.orEmpty] at hes
      split at hes
      · cases d with
        | map items =>
          cases hes
          rfl
        | _ => cases hes
      · rename_i hfalse
        cases hes
        cases d with
        | map items => simpa [Data.truthy] using hfalse
        | _ => rfl
  | _ => cases hfields

/-- **The operations of a specification are read from the slots of its
document**, one for each and in their order. -/
theorem reads_of_parse {s : Spec} (h : Spec.parse document = .ok s) :
    List.Forall₂ (Reads document) (ofDocument document) s.operations := by
  obtain ⟨paths, es, found, hpaths, hes, hfound, heq⟩ := (Spec.readFrom_of_parse h).operations
  rw [ofDocument, pathItems_eq hpaths hes, List.flatMap_def, heq]
  refine List.rel_flatten ?_
  rw [List.forall₂_map_left_iff]
  exact (forall₂_of_mapM hfound).imp fun _ _ => reads_of_parsePath

end Slot

/-! ## What becomes of them -/

section

variable {document : Data} {s : Spec} {groups : List (String × List Route)} {w : Slot}

/-- **The routes of all groups are at the places of the slots**, as often as
these are. -/
theorem perm_places (hs : Spec.parse document = .ok s) (hgroups : s.routes = .ok groups) :
    ((groups.flatMap Prod.snd).map fun r => (r.path, r.method)).Perm
      ((Slot.ofDocument document).map Slot.place) := by
  obtain ⟨rs, hrs, rfl⟩ := s.routes_eq hgroups
  have hread : (Slot.ofDocument document).map Slot.place =
      s.operations.map fun o => (o.path, Naming.upper o.method) := by
    have hmethods : ∀ w ∈ Slot.ofDocument document, w.method ∈ Spec.methods := fun w hw =>
      (Slot.exists_of_mem_ofDocument hw).choose_spec.2.1
    refine map_eq_map ((List.forall₂_and_left _ _).mpr ⟨hmethods, Slot.reads_of_parse hs⟩) ?_
    rintro w o ⟨hw, ho⟩
    obtain ⟨hpath, hmethod, -⟩ := ho.origin
    rw [Slot.place, hpath, hmethod, Slot.upper_upper hw]
  have hrouted : (s.operations.map fun o => (o.path, Naming.upper o.method)) =
      rs.map fun r => (r.path, r.method) :=
    map_eq_map (forall₂_of_mapM hrs) fun _ _ hor => (Route.of_classify hor).place.symm
  rw [hread, hrouted]
  exact (Route.flatMap_byGroup_perm rs).map _

/-- **No operation is lost, moved or doubled** on the way from a document to
its groups. The operations are read from the slots, in their order. The
groups stand in the order in which operations first use them, each once, and
each holds the routes of its operations, in their order. Over all groups
there is one route for each slot, so one for each operation that is written
under a method of a path. A blueprint has as many types of operations and as
many routes as there are operations. -/
theorem operations_kept (hs : Spec.parse document = .ok s) (hgroups : s.routes = .ok groups) :
    List.Forall₂ (Slot.Reads document) (Slot.ofDocument document) s.operations ∧
      keys groups = (s.operations.map fun o => Naming.groupKey o.tags).eraseDups ∧
      (keys groups).Nodup ∧
      (∀ g ∈ groups, g.2 ≠ [] ∧ List.Forall₂ (fun o r => Route.classify o = .ok r)
        (s.operations.filter fun o => Naming.groupKey o.tags = g.1) g.2) ∧
      ((groups.flatMap Prod.snd).map fun r => (r.path, r.method)).Perm
        ((Slot.ofDocument document).map Slot.place) ∧
      ((keys document.pathItems).Nodup → ∀ path item method operation,
        (.str path, item) ∈ document.pathItems → method ∈ Spec.methods →
          item.field? method = some operation → operation.isNull = false →
            (groups.flatMap Prod.snd).countP
              (fun r => r.path = path ∧ r.method = Naming.upper method) = 1) ∧
      ∀ config seed b log, (s.blueprint config seed).outcome = (.ok b, log) →
        b.endpoints.length = s.operations.length ∧
          (b.groups.map fun g => g.routes.length).sum = s.operations.length := by
  have hperm := perm_places hs hgroups
  obtain ⟨rs, hrs, rfl⟩ := s.routes_eq hgroups
  have hbeside := forall₂_of_mapM hrs
  have hkeys : rs.map Route.group = s.operations.map fun o => Naming.groupKey o.tags :=
    (map_eq_map hbeside fun o r hor => (Route.group_of_classify hor).symm).symm
  refine ⟨Slot.reads_of_parse hs, ?_, s.nodup_routes hgroups,
    fun g hg => ⟨Route.ne_nil_of_mem_byGroup hg, Route.forall₂_of_mem_byGroup hbeside hg⟩, hperm,
    fun hpaths path item method operation hpath hmethod hoperation hnull => ?_,
    fun config seed b log hmade => ⟨?_, ?_⟩⟩
  · rw [Route.keys_byGroup, hkeys]
  · have hone : ((Slot.ofDocument document).map Slot.place).count (path, Naming.upper method) = 1 :=
      List.count_eq_one_of_mem (Slot.nodup_place hpaths)
        (List.mem_map_of_mem (Slot.mem_ofDocument hpath hmethod hoperation hnull))
    rw [← hperm.count_eq, List.count_eq_countP, List.countP_map] at hone
    rw [← hone]
    exact List.countP_congr fun r _ => by simp
  · obtain ⟨ds, routes, h, -⟩ := Blueprint.contents hmade
    exact h.endpoints.length_eq.symm
  · obtain ⟨routes, hroutes, hb⟩ := Blueprint.groups_eq hmade
    obtain rfl : Route.byGroup rs = routes := Except.ok.inj (hgroups.symm.trans hroutes)
    have hlength : (b.groups.map fun g => g.routes.length) =
        (Route.byGroup rs).map fun g => g.2.length := by
      rw [hb, List.map_map]
      rfl
    rw [hlength, ← List.length_flatMap, (Route.flatMap_byGroup_perm rs).length_eq,
      hbeside.length_eq]

/-- An operation with these tags. -/
def taggedOperation (tags : List String) : Data :=
  .object [("tags", .list (tags.map Data.str)),
    ("responses", .object [("200", .object [("description", .str "ok")])])]

/-- A document with two groups, which are used in turn. Some path items are
empty, one method is null and one is none of those that are looked for. -/
def interleaved : Data := .object [
  ("info", .object [("title", .str "Interleaved"), ("version", .str "1")]),
  ("paths", .object [
    ("/pets", .object [("post", taggedOperation ["pets"]), ("put", .null),
      ("trace", taggedOperation []), ("get", taggedOperation ["Pets", "x"])]),
    ("/none", .null),
    ("/stats", .object [("head", taggedOperation [])]),
    ("/empty", .object []),
    ("/pets/{id}", .object [("delete", taggedOperation ["pets"])])])]

/-- Its four operations are kept, those of a path in the order of the methods. -/
theorem interleaved_kept : ∃ s groups, Spec.parse interleaved = .ok s ∧ s.routes = .ok groups ∧
    groups.map (fun g => (g.1, g.2.map fun r => (r.path, r.method))) =
      [("Pets", [("/pets", "GET"), ("/pets", "POST"), ("/pets/{id}", "DELETE")]),
        ("Default", [("/stats", "HEAD")])] ∧
    List.Forall₂ (Slot.Reads interleaved) (Slot.ofDocument interleaved) s.operations ∧
      keys groups = (s.operations.map fun o => Naming.groupKey o.tags).eraseDups ∧
      (keys groups).Nodup ∧
      (∀ g ∈ groups, g.2 ≠ [] ∧ List.Forall₂ (fun o r => Route.classify o = .ok r)
        (s.operations.filter fun o => Naming.groupKey o.tags = g.1) g.2) ∧
      ((groups.flatMap Prod.snd).map fun r => (r.path, r.method)).Perm
        ((Slot.ofDocument interleaved).map Slot.place) ∧
      ((keys interleaved.pathItems).Nodup → ∀ path item method operation,
        (.str path, item) ∈ interleaved.pathItems → method ∈ Spec.methods →
          item.field? method = some operation → operation.isNull = false →
            (groups.flatMap Prod.snd).countP
              (fun r => r.path = path ∧ r.method = Naming.upper method) = 1) ∧
      ∀ config seed b log, (s.blueprint config seed).outcome = (.ok b, log) →
        b.endpoints.length = s.operations.length ∧
          (b.groups.map fun g => g.routes.length).sum = s.operations.length := by
  have hmade : (Spec.parse interleaved).toOption.bind (fun s => s.routes.toOption.map fun groups =>
      groups.map fun g => (g.1, g.2.map fun r => (r.path, r.method))) =
      some [("Pets", [("/pets", "GET"), ("/pets", "POST"), ("/pets/{id}", "DELETE")]),
        ("Default", [("/stats", "HEAD")])] := by decide +kernel
  obtain ⟨s, hs, hrouted⟩ := of_toOption_bind hmade
  obtain ⟨groups, hgroups, hplaces⟩ := of_toOption_map hrouted
  exact ⟨s, groups, hs, hgroups, hplaces, operations_kept hs hgroups⟩

end

end ApiMock
