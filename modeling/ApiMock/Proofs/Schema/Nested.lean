import ApiMock.Proofs.Schema.Reads
import Mathlib
/-!
# Schema — an `allOf` among the members of another

Merging takes the form of the members, their properties and their required names, and nothing else.
A node `StandsFor` members if as much is taken from it as from them, and so it can be put in their
place (`mergeMembers_of_standsFor`). What an `allOf` is read as stands for its members, whether it
is the only one of them or they are merged, and whatever it is described as. So an `allOf` among
others in an `allOf` is read as if its members stood there themselves (`parse_nested`).
-/

namespace ApiMock

namespace Schema

open Entries Sequence

variable {nodes pre mid post : List Schema} {n : Schema} {es outer inner : List (Scalar × Data)}

/-! ## Standing for members -/

/-- A node stands for members if as much is taken from it as from them when it is merged with
others. -/
structure StandsFor (n : Schema) (members : List Schema) : Prop where
  kind : n.kind = .object ↔ ∀ m ∈ members, m.kind = .object
  properties : n.kind = .object → ofList n.properties = ofList (members.flatMap properties)
  required : n.kind = .object → n.required.eraseDups = (members.flatMap required).eraseDups

/-- A node stands for itself. -/
theorem standsFor_self : n.StandsFor [n] :=
  ⟨by simp, fun _ => by simp, fun _ => by simp⟩

/-- Members that are merged are stood for. -/
theorem standsFor_mergeMembers : (mergeMembers nodes).StandsFor nodes := by
  rw [mergeMembers_eq]
  split
  · rename_i h
    refine ⟨iff_of_true rfl h, fun _ => ofList_eq_self nodup_keys_ofList, fun _ => ?_⟩
    exact Distinct.eraseDups_of_nodup (Distinct.nodup_eraseDups _)
  · rename_i h
    exact ⟨iff_of_false nofun h, nofun, nofun⟩

/-- The description of a node plays no part in that. -/
theorem StandsFor.inheritDescription (h : n.StandsFor nodes) :
    (inheritDescription es n).StandsFor nodes := by
  rw [Schema.inheritDescription]
  split
  · exact ⟨by simpa using h.kind, by simpa using h.properties, by simpa using h.required⟩
  · exact h

/-- **What stands for members can be put in their place.** -/
theorem mergeMembers_of_standsFor (h : n.StandsFor mid) :
    mergeMembers (pre ++ n :: post) = mergeMembers (pre ++ mid ++ post) := by
  have hkinds : (∀ m ∈ pre ++ n :: post, m.kind = .object) ↔
      ∀ m ∈ pre ++ mid ++ post, m.kind = .object := by
    simp only [List.forall_mem_append, List.forall_mem_cons, h.kind, and_assoc]
  rw [mergeMembers_eq, mergeMembers_eq]
  by_cases hall : ∀ m ∈ pre ++ n :: post, m.kind = .object
  · have hn : n.kind = .object := hall n (by simp)
    have hproperties : ofList ((pre ++ n :: post).flatMap properties) =
        ofList ((pre ++ mid ++ post).flatMap properties) := by
      simp only [List.flatMap_append, List.flatMap_cons, ← List.append_assoc]
      exact ofList_append_congr (h.properties hn)
    have hrequired : ((pre ++ n :: post).flatMap required).eraseDups =
        ((pre ++ mid ++ post).flatMap required).eraseDups := by
      simp only [List.flatMap_append, List.flatMap_cons, ← List.append_assoc]
      exact Distinct.eraseDups_append_congr (Distinct.eraseDups_append_congr_right (h.required hn))
    rw [if_pos hall, if_pos (hkinds.mp hall), hproperties, hrequired]
  · rw [if_neg hall, if_neg fun h => hall (hkinds.mpr h)]

/-! ## What an `allOf` is read as -/

/-- The node of an `allOf` whose members have these nodes. -/
def ofAllOf : List Schema → Schema
  | [n] => n
  | nodes => mergeMembers nodes

/-- Either way it stands for its members. -/
theorem standsFor_ofAllOf : (ofAllOf nodes).StandsFor nodes := by
  rw [ofAllOf.eq_def]
  split
  · exact standsFor_self
  · exact standsFor_mergeMembers

/-- Several members are merged. -/
theorem ofAllOf_eq_mergeMembers (h : 2 ≤ nodes.length) : ofAllOf nodes = mergeMembers nodes := by
  rw [ofAllOf.eq_def]
  split
  · simp at h
  · rfl

/-- So are those that are read of several schemas. -/
theorem ofAllOf_mapM {items : List Data} (h : 2 ≤ items.length) :
    ofAllOf <$> items.mapM parse = mergeMembers <$> items.mapM parse := by
  cases hread : items.mapM parse with
  | error e => rfl
  | ok nodes =>
    have hlength := (forall₂_of_mapM hread).length_eq
    exact congrArg Except.ok (ofAllOf_eq_mergeMembers (hlength ▸ h))

/-- The members of an `allOf` are read one by one. -/
theorem parseAllOf_list {items : List Data} :
    parseAllOf (.list items) = ofAllOf <$> items.mapM parse := by
  match items with
  | [] =>
    rw [parseAllOf.eq_def]
    simp only [parseItems_eq_mapM, List.mapM_nil]
    rfl
  | [d] =>
    rw [parseAllOf, List.mapM_cons, List.mapM_nil]
    cases parse d <;> rfl
  | d :: e :: rest =>
    rw [parseAllOf.eq_def, ofAllOf_mapM (by simp)]
    simp only [parseItems_eq_mapM]

/-- An `allOf` of some members, whatever stands beside it. -/
def allOf (members : List Data) (beside : List (Scalar × Data)) : Data :=
  .map ((.str "allOf", .list members) :: beside)

/-- **An `allOf` reads all its members**, and fails as the first that is refused. -/
theorem parse_allOf {members : List Data} {beside : List (Scalar × Data)}
    (h : Data.lookup "$ref" beside = none) : parse (allOf members beside) =
      inheritDescription beside <$> ofAllOf <$> members.mapM parse := by
  have href : Data.lookup "$ref" ((.str "allOf", .list members) :: beside) = none := by
    rw [Data.lookup, List.lookup_cons]
    exact h
  have hallOf : Data.lookup "allOf" ((.str "allOf", .list members) :: beside) =
      some (.list members) := by
    rw [Data.lookup, List.lookup_cons]
    rfl
  have hdescription : inheritDescription ((.str "allOf", .list members) :: beside) =
      inheritDescription beside := rfl
  rw [allOf, parse, href]
  simp only
  split
  · rename_i ms hms
    rw [hallOf] at hms
    cases hms
    rw [hdescription, parseAllOf_list]
  · rename_i hnone
    rw [hallOf] at hnone
    cases hnone

/-- What is merged of several schemas is what is merged of as many with an `allOf` in place of
some of them. -/
theorem mergeMembers_mapM_nested {pre mid post : List Data}
    (h : Data.lookup "$ref" inner = none) :
    mergeMembers <$> (pre ++ allOf mid inner :: post).mapM parse =
      mergeMembers <$> (pre ++ mid ++ post).mapM parse := by
  rw [List.mapM_append, List.mapM_cons, List.mapM_append, List.mapM_append, parse_allOf h]
  -- the schemas are read in the same order, so the first that is refused is the same
  cases pre.mapM parse with
  | error e => rfl
  | ok before =>
    cases mid.mapM parse with
    | error e => rfl
    | ok nodes =>
      cases post.mapM parse with
      | error e => rfl
      | ok after =>
        exact congrArg Except.ok (mergeMembers_of_standsFor standsFor_ofAllOf.inheritDescription)

/-- **An `allOf` among others in an `allOf` can be replaced by its members.** -/
theorem parse_nested {pre mid post : List Data} (hmid : mid ≠ []) (hbeside : pre ≠ [] ∨ post ≠ [])
    (hinner : Data.lookup "$ref" inner = none) (houter : Data.lookup "$ref" outer = none) :
    parse (allOf (pre ++ [allOf mid inner] ++ post) outer) =
      parse (allOf (pre ++ mid ++ post) outer) := by
  have hpos : 0 < mid.length := List.length_pos_iff.mpr hmid
  have hbeside : 0 < pre.length ∨ 0 < post.length :=
    hbeside.imp List.length_pos_iff.mpr List.length_pos_iff.mpr
  have hnested : 2 ≤ (pre ++ allOf mid inner :: post).length := by
    rw [List.length_append, List.length_cons]
    omega
  have hflat : 2 ≤ (pre ++ mid ++ post).length := by
    rw [List.length_append, List.length_append]
    omega
  have hmerged : ofAllOf <$> (pre ++ allOf mid inner :: post).mapM parse =
      ofAllOf <$> (pre ++ mid ++ post).mapM parse := by
    rw [ofAllOf_mapM hnested, ofAllOf_mapM hflat, mergeMembers_mapM_nested hinner]
  rw [List.append_assoc, List.singleton_append, parse_allOf houter, parse_allOf houter, hmerged]

/-- A schema of an object with these properties, of these types. -/
def record (properties : List (String × String)) (required : List String) : Data :=
  .object [("type", .str "object"),
    ("properties", .object (properties.map fun p => (p.1, .object [("type", .str p.2)]))),
    ("required", .list (required.map .str))]

/-- Of the properties of a name the first gives the place and the last the type. The description
between is lost. -/
theorem named_nested : ∃ s,
    parse (allOf ([record [("id", "integer"), ("tag", "string")] ["id"]] ++
      [allOf [record [("name", "string")] ["name"], record [("id", "string")] []]
        [(.str "description", .str "inner")]] ++ [record [("tag", "boolean")] ["id"]])
      [(.str "description", .str "outer")]) = .ok s ∧
    parse (allOf ([record [("id", "integer"), ("tag", "string")] ["id"]] ++
      [record [("name", "string")] ["name"], record [("id", "string")] []] ++
      [record [("tag", "boolean")] ["id"]])
      [(.str "description", .str "outer")]) = .ok s ∧
    s = .object (some "object") none (some (.str "outer"))
      [("id", .primitive "string" none none), ("tag", .primitive "boolean" none none),
        ("name", .primitive "string" none none)] ["id", "name"] := by
  refine ⟨_, (parse_nested (by decide) (.inl (by decide)) rfl rfl).trans ?flat, ?flat, rfl⟩
  cbv

end Schema

end ApiMock
