import ApiMock.Proofs.Data.TextKeys
import ApiMock.Proofs.Naming.Reference
import ApiMock.Proofs.OpenApi.Pointers
import ApiMock.Proofs.TypeScript.Transparent
/-!
# Document — definitions that are pointed at

A reference to a definition is read in two ways. Its pointer is followed key by key, each as it is
meant; its node goes by the last segment, as it is written. Both come to the same definition
exactly if its name is plain. Otherwise the node goes by the escaped name, or by that of the
mapping of all definitions if the name is empty, and is taken for another definition or for none
(`definition_referred`).
-/

namespace ApiMock

open Entries Sequence TypeScript Resolving

/-- The pointer to a definition of a document. -/
def definitionPointer (name : String) : String :=
  Pointer.written ["components", "schemas", name]

/-- The name that a reference to a definition goes by. -/
def segmentName (name : String) : String :=
  if name = "" then "schemas" else String.ofList (Pointer.escape name.toList)

/-- A name that is written as it is, and is there to be seen. -/
def IsPlain (name : String) : Prop :=
  name ≠ "" ∧ '~' ∉ name.toList ∧ '/' ∉ name.toList

instance (name : String) : Decidable (IsPlain name) :=
  inferInstanceAs (Decidable (_ ∧ _ ∧ _))

variable {document definition : Data} {name : String} {s : Spec}

/-! ## Names -/

/-- The pointer to a definition ends in its name, escaped. -/
theorem toList_definitionPointer : (definitionPointer name).toList =
    "#/components/schemas/".toList ++ Pointer.escape name.toList := by
  rw [definitionPointer, Pointer.written, String.toList_ofList]
  rfl

/-- **A reference to a definition goes by the last segment of its pointer.** -/
theorem refName_definitionPointer : Naming.refName (definitionPointer name) = segmentName name := by
  rw [Naming.refName_eq_iff, segmentName]
  split
  · rename_i hempty
    subst hempty
    exact ⟨by decide, "#/components/".toList, ['/'], by decide, by simp, .inr (by decide)⟩
  · rename_i hname
    have hsegment := @String.toList_ofList (Pointer.escape name.toList)
    refine ⟨?_, "#/components/schemas/".toList, [], ?_, by simp, .inr ⟨?_, by decide⟩⟩
    · rw [hsegment]
      exact Pointer.slash_notMem_escape _
    · rw [toList_definitionPointer, hsegment, List.append_nil]
    · rw [Ne, ← String.toList_eq_nil_iff, hsegment, Pointer.escape_eq_nil_iff,
        String.toList_eq_nil_iff]
      exact hname

/-- It is the name of the definition exactly if that is plain. -/
theorem segmentName_eq_iff : segmentName name = name ↔ IsPlain name := by
  rw [segmentName, IsPlain]
  split
  · rename_i hempty
    subst hempty
    decide
  · rename_i hname
    rw [← String.toList_inj, String.toList_ofList, Pointer.escape_eq_self_iff]
    exact ⟨fun h => ⟨hname, h⟩, And.right⟩

/-! ## Definitions -/

/-- The pointer to a definition leads there. -/
theorem follow_definitionPointer
    (h : Pointer.Finds document ["components", "schemas", name] definition) :
    Pointer.follow document (definitionPointer name) = definition :=
  Pointer.follow_of_finds (by decide) (by decide) h

/-- Named schemas are read one by one. -/
theorem Schema.forall₂_of_parseEntries {es : List (Scalar × Data)} {read : List (Scalar × Schema)}
    (h : Schema.parseEntries es = .ok read) :
    List.Forall₂ (fun e n => e.1 = n.1 ∧ Schema.parse e.2 = .ok n.2) es read := by
  induction es generalizing read with
  | nil =>
    rw [Schema.parseEntries] at h
    cases h
    exact .nil
  | cons e rest ih =>
    rw [Schema.parseEntries] at h
    obtain ⟨node, hnode, h⟩ := of_bind_ok h
    obtain ⟨others, hothers, h⟩ := of_bind_ok h
    cases h
    exact .cons ⟨rfl, hnode⟩ (ih hothers)

/-- **A definition of the document is one of the specification**, and in a document with texts for
keys it is the one that goes by its name. -/
theorem Spec.schemas_of_finds (hs : Spec.parse document = .ok s)
    (h : Pointer.Finds document ["components", "schemas", name] definition) :
    ∃ node, Schema.parse definition = .ok node ∧ (name, node) ∈ s.schemas ∧
      (document.TextKeyed → s.schemas.lookup name = some node) := by
  obtain ⟨components, listed, es, read, hcomponents, hlisted, hes, hread, heq⟩ :=
    (Spec.readFrom_of_parse hs).schemas
  -- what is read stands where the way to the definition goes through
  cases h with | @down ds _ _ _ _ hds h =>
  cases h with | @down cs _ _ _ _ hcs h =>
  cases h with | @down fs _ _ _ _ hdefinition h =>
  cases h
  rw [Data.field_map, hds] at hcomponents
  cases hcomponents
  rw [Option.getD_some, Data.orEmpty_map, Data.field_map, hcs] at hlisted
  cases hlisted
  rw [Option.getD_some, Data.orEmpty_map] at hes
  cases hes
  have hbeside := Schema.forall₂_of_parseEntries hread
  obtain ⟨node, hnode, hparse⟩ : ∃ node, read.lookup (.str name) = some node ∧
      Schema.parse definition = .ok node := by
    have hfound := Data.rel_lookup (R := fun _ d n => Schema.parse d = .ok n) hbeside name
    rw [show es.lookup (.str name) = some definition from hdefinition] at hfound
    cases hnode : read.lookup (.str name) with
    | none =>
      rw [hnode] at hfound
      cases hfound
    | some node =>
      rw [hnode] at hfound
      cases hfound with | some hparse => exact ⟨node, rfl, hparse⟩
  refine ⟨node, hparse, heq ▸ Data.mem_textKeyed (Data.mem_of_lookup hnode), fun hkeyed => ?_⟩
  have hkeys : ∀ n ∈ read, ∃ name, n.1 = .str name := by
    intro n hn
    obtain ⟨e, he, hkey, -⟩ := exists_of_mem_right hbeside hn
    exact hkey ▸ ((hkeyed.of_lookup hds).of_lookup hcs).key he
  rw [heq, Data.lookup_textKeyed hkeys, hnode]

/-! ## References -/

/-- What a reference to a definition of this name comes to: the type of the definition if the name
is plain. Otherwise that of another definition, whose name is the last segment of the pointer, or
`any` if there is none. -/
inductive ReferredAs (known : List String) (name : String) : TypeExpr → Prop where
  | definition (hplain : IsPlain name) : ReferredAs known name (.named (Naming.pascal name))
  | other (hplain : ¬ IsPlain name) (hknown : segmentName name ∈ known) :
      ReferredAs known name (.named (Naming.pascal (segmentName name)))
  | nothing (hplain : ¬ IsPlain name) (hknown : segmentName name ∉ known) :
      ReferredAs known name .any

/-- A reference to a definition is read as one that goes by the last segment. -/
theorem Schema.parse_definitionPointer {es : List (Scalar × Data)} {node : Schema}
    (hpointer : Data.lookup "$ref" es = some (.str (definitionPointer name)))
    (h : Schema.parse (.map es) = .ok node) :
    node = .reference (segmentName name) (Schema.describe es) := by
  rw [Schema.parse, hpointer] at h
  obtain ⟨text, htext, h⟩ := of_bind_ok h
  cases htext
  rw [Schema.of_refuseFaults h, refName_definitionPointer]

/-- The type of such a node. -/
theorem ReferredAs.of_resolve {seen : List String} {description : Option Data} {p q : Pass}
    {r : Resolution} (hname : name ∈ keys s.schemas) (hseen : ∀ k ∈ seen, k ∈ keys s.schemas)
    (h : (resolve s.schemas seen (.reference (segmentName name) description)).result p =
      (.ok r, q)) :
    ReferredAs (keys s.schemas) name r.type := by
  have htype := ofNode_of_resolve hseen h
  rw [TypeExpr.ofNode] at htype
  rw [← Except.ok.inj htype]
  by_cases hplain : IsPlain name
  · rw [segmentName_eq_iff.mpr hplain, if_pos (List.contains_iff_mem.mpr hname)]
    exact .definition hplain
  · split
    · rename_i hknown
      exact .other hplain (List.contains_iff_mem.mp hknown)
    · rename_i hknown
      exact .nothing hplain fun h => hknown (List.contains_iff_mem.mpr h)

/-- **A definition is referred to by the last segment of its pointer**, as it is written. The
pointer leads to the definition whatever its name is; the reference goes by that name, and has its
type, exactly if the name is plain. -/
theorem definition_referred
    (h : Pointer.Finds document ["components", "schemas", name] definition) :
    Pointer.follow document (definitionPointer name) = definition ∧
      (Naming.refName (definitionPointer name) = name ↔ IsPlain name) ∧
      ∀ s, Spec.parse document = .ok s → ∃ node, Schema.parse definition = .ok node ∧
        (name, node) ∈ s.schemas ∧ (document.TextKeyed → s.schemas.lookup name = some node) ∧
        ∀ es reference, Data.lookup "$ref" es = some (.str (definitionPointer name)) →
          Schema.parse (.map es) = .ok reference → ∀ seen p, (∀ k ∈ seen, k ∈ keys s.schemas) →
            (∀ r q, (resolve s.schemas seen reference).result p = (.ok r, q) →
              ReferredAs (keys s.schemas) name r.type) ∧
            (document.IsJson → ∃ r q, (resolve s.schemas seen reference).result p = (.ok r, q)) := by
  refine ⟨follow_definitionPointer h, by rw [refName_definitionPointer, segmentName_eq_iff],
    fun s hs => ?_⟩
  obtain ⟨node, hparse, hin, hlookup⟩ := Spec.schemas_of_finds hs h
  refine ⟨node, hparse, hin, hlookup, fun es reference hpointer href seen p hseen => ?_⟩
  rw [Schema.parse_definitionPointer hpointer href]
  refine ⟨fun r q hr => .of_resolve (List.mem_map_of_mem hin) hseen hr, fun hjson => ?_⟩
  have hvalued : (Schema.reference (segmentName name) (Schema.describe es)).JsonValued := by
    simp [Schema.JsonValued]
  obtain ⟨r, q, hr, -⟩ := resolve_isOk (p := p) hseen (Spec.jsonValued_of_parse hjson hs).schemas
    hvalued
  exact ⟨r, q, hr⟩

/-- A definition of a market. -/
def item : Data := .object [("type", .str "string")]

/-- A market with the definition under a name, and with a list of what it defines. -/
def market (name : String) : Data :=
  .object [("openapi", .str "3.0.0"),
    ("info", .object [("title", .str "Market"), ("version", .str "1")]), ("paths", .object []),
    ("components", .object [("schemas", .object [(name, item),
      ("Cart", .object [("type", .str "array"), ("items", referTo (definitionPointer name))])])])]

theorem market_finds (name : String) :
    Pointer.Finds (market name) ["components", "schemas", name] item := by
  refine .down rfl (.down rfl (.down ?_ (.here _)))
  rw [List.map_cons, Data.lookup, List.lookup_cons, Scalar.str_beq_str, beq_self_eq_true]

theorem market_isJson (name : String) : (market name).IsJson := by
  simp [market, item, referTo, Data.object, Data.str]

/-- With a plain name the reference comes to the definition. -/
theorem shopItem_referred : ∃ s r q, Spec.parse (market "shop-item") = .ok s ∧
    Pointer.follow (market "shop-item") (definitionPointer "shop-item") = item ∧
    (resolve s.schemas [] (.reference "shop-item" none)).result ⟨[], []⟩ = (.ok r, q) ∧
    r.type = .named "ShopItem" := by
  have hplain : IsPlain "shop-item" := by decide
  have hread : (Spec.parse (market "shop-item")).toOption.map (fun _ => ()) = some () := by
    decide +kernel
  obtain ⟨s, hs, -⟩ := of_toOption_map hread
  obtain ⟨hfollow, -, hspec⟩ := definition_referred (market_finds "shop-item")
  obtain ⟨-, -, -, -, hrefer⟩ := hspec s hs
  have href : Schema.parse (referTo (definitionPointer "shop-item")) =
      .ok (.reference "shop-item" none) := by
    rw [referTo, Data.object, Schema.parse]
    rfl
  obtain ⟨htype, hresolves⟩ := hrefer _ _ rfl href [] ⟨[], []⟩ (by simp)
  obtain ⟨r, q, hr⟩ := hresolves (market_isJson _)
  refine ⟨s, r, q, hs, hfollow, hr, ?_⟩
  have hreferred := htype r q hr
  generalize r.type = t at hreferred ⊢
  cases hreferred with
  | definition => exact congrArg TypeExpr.named (by decide)
  | other hnot => exact absurd hplain hnot
  | nothing hnot => exact absurd hplain hnot

/-- With a slash in its name the pointer leads to the definition all the same, and the reference
is `any`. -/
theorem slashed_unreferred :
    Pointer.follow (market "shop/item") (definitionPointer "shop/item") = item ∧
      Naming.refName (definitionPointer "shop/item") ≠ "shop/item" ∧
      ∃ s r q, Spec.parse (market "shop/item") = .ok s ∧ "shop/item" ∈ keys s.schemas ∧
        (resolve s.schemas []
          (.reference (Naming.refName (definitionPointer "shop/item")) none)).result ⟨[], []⟩ =
            (.ok r, q) ∧ r.type = .any := by
  have hread : (Spec.parse (market "shop/item")).toOption.map (fun s => keys s.schemas) =
      some ["shop/item", "Cart"] := by decide +kernel
  obtain ⟨s, hs, hkeys⟩ := of_toOption_map hread
  have hname : Naming.refName (definitionPointer "shop/item") = "shop~1item" := by decide
  have hvalued : (Schema.reference "shop~1item" none).JsonValued := by simp [Schema.JsonValued]
  have hseen : ∀ k ∈ ([] : List String), k ∈ keys s.schemas := by simp
  obtain ⟨r, q, hr, htype⟩ := resolve_isOk (p := ⟨[], []⟩) hseen
    (Spec.jsonValued_of_parse (market_isJson _) hs).schemas hvalued
  rw [hkeys, TypeExpr.ofNode] at htype
  rw [hname]
  refine ⟨follow_definitionPointer (market_finds _), by decide, s, r, q, hs, ?_, hr,
    (Except.ok.inj htype).symm⟩
  rw [hkeys]
  exact List.mem_cons_self

end ApiMock
