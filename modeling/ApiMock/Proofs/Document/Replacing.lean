import ApiMock.Operation.Parse
import ApiMock.Proofs.Data.TextKeys
import ApiMock.Proofs.OpenApi.Pointers
import ApiMock.Proofs.Sequence
/-!
# Document — references that are replaced

A parameter, a body and a response can be a reference. Writing what its chain of references ends
in instead, or null where the chain leads nowhere, makes no difference to the operation that is
read, and none to the failure if none is read (`parse_replaced`). Only chains of at most sixteen
steps are followed to their end; what the other references of the document do does not matter.
-/

namespace ApiMock

open Sequence

namespace Pointer

variable {document d e : Data} {n : ℕ}

/-! ## Chains -/

/-- From one value so many references lead to another, each a text. -/
inductive Chain (document : Data) : ℕ → Data → Data → Prop where
  | stop (d : Data) : Chain document 0 d d
  | step {n : ℕ} {d e : Data} {pointer : String} (href : d.field? "$ref" = some (.str pointer))
      (h : Chain document n (follow document pointer) e) : Chain document (n + 1) d e

/-- A document that counts as false has nothing to lead to, nor has the empty one. -/
theorem follow_orEmpty (document : Data) (pointer : String) :
    follow document.orEmpty pointer = follow document pointer := by
  rw [Data.orEmpty]
  split
  · rfl
  · rename_i hfalsy
    obtain ⟨key, rest, hkeys⟩ : ∃ key rest, keys pointer = key :: rest :=
      List.exists_cons_of_ne_nil fun h => Text.cut_ne_nil _ _ (List.map_eq_nil_iff.mp h)
    have hnone : document.field? key = none := by
      cases document with
      | map es =>
        rw [Data.truthy, Bool.not_eq_true, Bool.not_eq_false', List.isEmpty_iff] at hfalsy
        rw [hfalsy]
        rfl
      | _ => rfl
    rw [follow, follow, hkeys, walk, walk, hnone]
    rfl

/-- A reference is followed by a step. -/
theorem derefWithin_step {pointer : String} (href : d.field? "$ref" = some (.str pointer)) :
    derefWithin document (n + 1) d = derefWithin document n (follow document pointer) := by
  rw [derefWithin, href]
  rfl

/-- What is no reference is left as it is. -/
theorem derefWithin_stop (hend : d.field? "$ref" = none) : derefWithin document n d = .ok d := by
  cases n with
  | zero => rfl
  | succ n => rw [derefWithin, hend]

/-- **A chain is followed to its end**, with steps enough. -/
theorem Chain.derefWithin_eq (h : Chain document n d e) (hend : e.field? "$ref" = none) (m : ℕ) :
    derefWithin document.orEmpty (n + m) d = .ok e := by
  induction h with
  | stop => exact derefWithin_stop hend
  | step href _ ih => rw [Nat.add_right_comm, derefWithin_step href, follow_orEmpty, ih hend]

end Pointer

open Pointer (Chain)

variable {document d e shared shared' own own' operation operation' : Data}
  {es fs : List (Scalar × Data)}

/-! ## What is replaced -/

/-- One value is written instead of another: the end of its chain of references, that is no
reference, if it is not the value itself. -/
inductive Replaced (document d : Data) : Data → Prop where
  | kept : Replaced document d d
  | led {n : ℕ} {e : Data} (hn : n ≤ 16) (h : Chain document n d e)
      (hend : e.field? "$ref" = none) : Replaced document d e

/-- Elements of a list or of a pair are replaced. -/
inductive ItemsReplaced (document : Data) : Data → Data → Prop where
  | kept (d : Data) : ItemsReplaced document d d
  | list {items items' : List Data} (h : List.Forall₂ (Replaced document) items items') :
      ItemsReplaced document (.list items) (.list items')
  | pair {a b a' b' : Data} (hfst : Replaced document a a') (hsnd : Replaced document b b') :
      ItemsReplaced document (.pair a b) (.pair a' b')

/-- Values of a mapping are replaced. -/
inductive ValuesReplaced (document : Data) : Data → Data → Prop where
  | kept (d : Data) : ValuesReplaced document d d
  | map {es fs : List (Scalar × Data)}
      (h : List.Forall₂ (fun e f => e.1 = f.1 ∧ Replaced document e.2 f.2) es fs) :
      ValuesReplaced document (.map es) (.map fs)

/-- In an operation its parameters, its body and its responses are replaced; any other field stays
as it is. -/
def FieldReplaced (document : Data) : Scalar → Data → Data → Prop
  | .str "parameters" => ItemsReplaced document
  | .str "requestBody" => Replaced document
  | .str "responses" => ValuesReplaced document
  | _ => Eq

/-- In an operation references are replaced. -/
inductive OperationReplaced (document : Data) : Data → Data → Prop where
  | kept (d : Data) : OperationReplaced document d d
  | map {es fs : List (Scalar × Data)}
      (h : List.Forall₂ (fun e f => e.1 = f.1 ∧ FieldReplaced document e.1 e.2 f.2) es fs) :
      OperationReplaced document (.map es) (.map fs)

/-- **What is written instead of a reference stands for the same.** -/
theorem Replaced.deref_eq (h : Replaced document d e) :
    Pointer.deref document.orEmpty d = Pointer.deref document.orEmpty e := by
  cases h with
  | kept => rfl
  | @led n e hn h hend =>
    obtain ⟨m, hm⟩ := Nat.exists_eq_add_of_le hn
    rw [Pointer.deref, Pointer.deref, hm, h.derefWithin_eq hend m, Pointer.derefWithin_stop hend]

/-! ## Parameters -/

/-- Both have elements, replaced one by one, or neither has. -/
theorem ItemsReplaced.elements (h : ItemsReplaced document d e) :
    (∃ f, d.elementsOrNone = .error f ∧ e.elementsOrNone = .error f) ∨
      ∃ items items', d.elementsOrNone = .ok items ∧ e.elementsOrNone = .ok items' ∧
        List.Forall₂ (Replaced document) items items' := by
  cases h with
  | kept d =>
    cases hitems : d.elementsOrNone with
    | error f => exact .inl ⟨f, rfl, rfl⟩
    | ok items => exact .inr ⟨items, items, rfl, rfl, List.forall₂_same.mpr fun _ _ => .kept⟩
  | list h =>
    cases h with
    | nil => exact .inr ⟨[], [], rfl, rfl, .nil⟩
    | cons hfirst hrest => exact .inr ⟨_, _, rfl, rfl, .cons hfirst hrest⟩
  | pair hfst hsnd => exact .inr ⟨_, _, rfl, rfl, .cons hfst (.cons hsnd .nil)⟩

/-- An entry is merged as what it stands for. -/
theorem Replaced.mergeParameter_eq (h : Replaced document d e)
    (merged : List (ParameterKey × RawParameter)) :
    mergeParameter document.orEmpty merged d = mergeParameter document.orEmpty merged e := by
  rw [mergeParameter, mergeParameter, rawParameter, rawParameter, h.deref_eq]

/-- **The parameters are those of the replaced entries.** -/
theorem parseParameters_replaced (hshared : ItemsReplaced document shared shared')
    (hown : ItemsReplaced document own own') :
    parseParameters document.orEmpty shared own =
      parseParameters document.orEmpty shared' own' := by
  rw [parseParameters, parseParameters]
  rcases hshared.elements with ⟨f, hd, he⟩ | ⟨items, items', hd, he, hitems⟩
  · rw [hd, he]
    rfl
  rcases hown.elements with ⟨f, hd', he'⟩ | ⟨others, others', hd', he', hothers⟩
  · rw [hd, he, hd', he']
    rfl
  simp only [hd, he, hd', he', ok_bind]
  rw [foldlM_eq_foldlM (List.rel_append hitems hothers) fun _ _ h => h.mergeParameter_eq]

/-! ## Responses -/

/-- **The responses stand for the same**, under the same codes. -/
theorem ValuesReplaced.derefs_eq (h : ValuesReplaced document d e) :
    (d.orEmpty.entries >>= fun es => es.mapM fun e => do
        return (e.1, ← Pointer.deref document.orEmpty e.2)) =
      e.orEmpty.entries >>= fun es => es.mapM fun e => do
        return (e.1, ← Pointer.deref document.orEmpty e.2) := by
  cases h with
  | kept => rfl
  | map h =>
    simp only [Data.orEmpty_map, Data.entries, ok_bind]
    exact mapM_eq_mapM h fun x y hxy => by rw [hxy.1, hxy.2.deref_eq]

/-! ## Operations -/

/-- A field that stays as it is. -/
theorem FieldReplaced.refl (k : Scalar) (d : Data) : FieldReplaced document k d d := by
  unfold FieldReplaced
  split
  · exact .kept d
  · exact .kept
  · exact .kept d
  · rfl

/-- What is found under a name is replaced as its field is. -/
theorem FieldReplaced.of_lookup (h : List.Forall₂ (fun e f => e.1 = f.1 ∧
    FieldReplaced document e.1 e.2 f.2) es fs) (name : String) :
    FieldReplaced document (.str name) ((Data.lookup name es).getD .null)
      ((Data.lookup name fs).getD .null) := by
  have hfound := Data.rel_lookup (R := FieldReplaced document) h name
  rw [Data.lookup, Data.lookup]
  generalize es.lookup (Scalar.str name) = x, fs.lookup (Scalar.str name) = y at hfound
  cases hfound with
  | none => exact .refl _ _
  | some hfield => exact hfield

/-- What is no mapping has no fields that could be replaced. -/
theorem OperationReplaced.fields (h : OperationReplaced document operation operation') :
    (∃ es fs, operation = .map es ∧ operation' = .map fs ∧ ∀ name,
      FieldReplaced document (.str name) ((Data.lookup name es).getD .null)
        ((Data.lookup name fs).getD .null)) ∨
      operation = operation' ∧ ∀ name, operation.field name = .error .notMapping := by
  cases h with
  | map h => exact .inl ⟨_, _, rfl, rfl, FieldReplaced.of_lookup h⟩
  | kept =>
    cases operation with
    | map es => exact .inl ⟨es, es, rfl, rfl, fun name => .refl _ _⟩
    | _ => exact .inr ⟨rfl, fun _ => rfl⟩

/-- **References are transparent.** An operation is read alike, and is refused alike, with its
references and with what they lead to in their place. -/
theorem parse_replaced {path method : String} (h : OperationReplaced document operation operation')
    (hshared : ItemsReplaced document shared shared') :
    Operation.parse path method operation document shared =
      Operation.parse path method operation' document shared' := by
  rcases h.fields with ⟨es, fs, rfl, rfl, hfield⟩ | ⟨rfl, hnone⟩
  · have hid : _ = _ := hfield "operationId"
    have hsummary : _ = _ := hfield "summary"
    have hdescription : _ = _ := hfield "description"
    have htags : _ = _ := hfield "tags"
    have hparameters := parseParameters_replaced hshared (hfield "parameters")
    have hbody := Replaced.deref_eq (hfield "requestBody")
    have hresponses := ValuesReplaced.derefs_eq (hfield "responses")
    rw [Operation.parse, Operation.parse]
    simp only [Data.field_map, ok_bind, hid, hsummary, hdescription, htags, hparameters, hbody]
    rw [← bind_assoc, hresponses, bind_assoc]
  · rw [Operation.parse, Operation.parse, hnone]
    rfl

/-- A parameter and a body that are shared. -/
def limit : Data := .object [("name", .str "limit"), ("schema", .object [("type", .str "integer")])]

/-- The body. -/
def book : Data := .object [("required", .bool true), ("content", .object [])]

/-- A document where they stand, one behind a further reference, and a reference to itself. -/
def bookcase : Data :=
  .object [("components", .object [("parameters", .object [("Limit", referTo "#/x-shared/limit")]),
    ("requestBodies", .object [("Book", book)])]), ("x-shared", .object [("limit", limit)]),
    ("x-circle", referTo "#/x-circle")]

/-- An operation with this parameter, this body and this response. -/
def shelving (parameter body response : Data) : Data :=
  .object [("parameters", .list [referTo "#/x-circle", parameter]), ("requestBody", body),
    ("responses", .object [("200", response)])]

/-- Two references, a single one and one that leads nowhere are replaced; one that leads to itself
stays. -/
theorem shelving_replaced :
    let referring := shelving (referTo "#/components/parameters/Limit")
      (referTo "#/components/requestBodies/Book") (referTo "#/components/responses/Stored")
    let direct := Operation.parse "/books" "put" (shelving limit book .null) bookcase (.list [limit])
    Operation.parse "/books" "put" referring bookcase (.list [referTo "#/x-shared/limit"]) = direct ∧
      direct.toOption.map (fun o => (o.parameters.map Parameter.name, o.body.isSome)) =
        some (["limit"], true) := by
  have hlimit : Chain bookcase 1 (referTo "#/x-shared/limit") limit := .step rfl (.stop limit)
  have hdirect : Replaced bookcase (referTo "#/x-shared/limit") limit := .led (by decide) hlimit rfl
  refine ⟨parse_replaced (.map (.cons ⟨rfl, .list (.cons .kept (.cons ?_ .nil))⟩
    (.cons ⟨rfl, ?_⟩ (.cons ⟨rfl, .map (.cons ⟨rfl, ?_⟩ .nil)⟩ .nil))))
    (.list (.cons hdirect .nil)), by decide +kernel⟩
  · exact .led (by decide) (.step rfl hlimit) rfl
  · exact .led (by decide) (.step rfl (.stop book)) rfl
  · exact .led (by decide) (.step rfl (.stop .null)) rfl

end ApiMock
