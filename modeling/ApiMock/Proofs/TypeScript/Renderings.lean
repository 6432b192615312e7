import ApiMock.Proofs.Blueprint.Made
import ApiMock.Proofs.TypeScript.Reach
import ApiMock.Proofs.TypeScript.References
import ApiMock.Proofs.TypeScript.Yields
/-!
# TypeScript — one object, three renderings

A definition that is an object is written as an interface, in place of a
node as an object type on one line, and as the expansion that is kept for
references to it. Each of the three is made while other definitions count as
being expanded, and with another memo. They have the same members
(`renderings_agree`): the type of a member is read off its node, and that
depends on neither.
-/

namespace ApiMock

namespace TypeScript

open Entries Resolving Sequence

variable {defs : Definitions} {seen : List String} {name : String} {node : Schema}
  {properties : List (String × Schema)} {required : List String}
  {p q : Pass} {made : List (String × Resolution)}

/-! ## Members and what is written of them -/

/-- The text of the key of a member and the text of its type. -/
abbrev MemberText := String × String

/-- An object type on one line. -/
def inlineText : List MemberText → String
  | [] => "\x7b\x7d"
  | members =>
    "\x7b " ++ String.intercalate "; " (members.map fun m => m.1 ++ ": " ++ m.2) ++ " \x7d"

/-- A member on a line of its own, behind its comment. -/
def memberLine (comment : Option String) (m : MemberText) : String :=
  commentLine "  " comment ++ "  " ++ m.1 ++ ": " ++ m.2 ++ ";\n"

/-- An exported interface, with its comment and one for each member. -/
def interfaceText (name : String) (comment : Option String) (comments : List (Option String))
    (members : List MemberText) : String :=
  commentLine "" comment ++ ("export interface " ++ name ++ " \x7b\n" ++
    String.join (List.zipWith memberLine comments members) ++ "\x7d")

/-- A member of an object type, as it is written. -/
def memberText (m : PropertyKey × TypeExpr) : MemberText :=
  (m.1.render, m.2.render)

/-- A property of an interface, as it is written behind its comment. -/
def Member.text (m : Member) : MemberText :=
  memberText (m.key, m.type)

theorem inlineText_map {members : List (PropertyKey × TypeExpr)} :
    inlineText (members.map memberText) = (TypeExpr.object members).render := by
  have hparts : ∀ ms : List (PropertyKey × TypeExpr),
      (ms.map memberText).map (fun m => m.1 ++ ": " ++ m.2) = TypeExpr.renderMembers ms := by
    intro ms
    induction ms with
    | nil => rw [TypeExpr.renderMembers]; rfl
    | cons m rest ih =>
      rw [TypeExpr.renderMembers, ← ih]
      rfl
  cases members with
  | nil => rw [TypeExpr.render]; rfl
  | cons m rest =>
    rw [TypeExpr.render, ← hparts, List.map_cons, inlineText] <;> simp

theorem zipWith_memberLine {ms : List Member} :
    List.zipWith memberLine (ms.map Member.comment) (ms.map Member.text) = ms.map Member.render := by
  rw [List.zipWith_map, List.zipWith_self]
  rfl

/-- The declaration is an interface of these members, comments aside. -/
def Declaration.HasMembers (d : Declaration) (members : List MemberText) : Prop :=
  ∃ ms, d.body = .interface ms ∧ ms.map Member.text = members ∧
    d.render = interfaceText d.name d.comment (ms.map Member.comment) members

/-- The type is an object type of these members. -/
def TypeExpr.HasMembers (t : TypeExpr) (members : List MemberText) : Prop :=
  ∃ ms, t = .object ms ∧ ms.map memberText = members ∧ t.render = inlineText members

theorem TypeExpr.hasMembers_object {members : List (PropertyKey × TypeExpr)} :
    (TypeExpr.object members).HasMembers (members.map memberText) :=
  ⟨members, rfl, rfl, inlineText_map.symm⟩

theorem Declaration.hasMembers_of_interface {d : Declaration} {ms : List Member}
    (h : d.body = .interface ms) : d.HasMembers (ms.map Member.text) := by
  refine ⟨ms, h, rfl, ?_⟩
  rw [Declaration.render, h, interfaceText, zipWith_memberLine]

/-! ## The types of the members -/

/-- What an interface has for its properties are their types, read off. -/
theorem ofMembers_of_forall₂ {known : List String} {ms : List Member}
    (h : List.Forall₂ (fun e m => m.key = ⟨e.1, required.contains e.1⟩ ∧
      TypeExpr.ofNode known e.2 = .ok m.type) properties ms) :
    TypeExpr.ofMembers known required properties = .ok (ms.map fun m => (m.key, m.type)) := by
  induction h with
  | nil => rw [TypeExpr.ofMembers]; rfl
  | @cons e m es ms hm _ ih =>
    obtain ⟨hkey, htype⟩ := hm
    rw [TypeExpr.ofMembers, htype, ih, List.map_cons, hkey]
    rfl

/-- An object is declared as an interface with a member for each property. -/
theorem Declares.interface {known : List String} {declared format : Option String}
    {description : Option Data} {d : Declaration}
    (h : Declares known (name, .object declared format description properties required) d) :
    ∃ ms, d.body = .interface ms ∧
      List.Forall₂ (fun e m => m.key = ⟨e.1, required.contains e.1⟩ ∧
        TypeExpr.ofNode known e.2 = .ok m.type) properties ms := by
  have hbody := h.body
  generalize d.body = body at hbody
  cases hbody with
  | object hms => exact ⟨_, rfl, hms⟩
  | other hnode _ => exact absurd rfl (hnode _ _ _ _ _)

/-- The keys of the members are those of the properties, in order. -/
theorem keys_of_ofMembers {known : List String} {ts : List (PropertyKey × TypeExpr)}
    (h : TypeExpr.ofMembers known required properties = .ok ts) :
    (ts.map memberText).map Prod.fst =
      properties.map fun e => propertyKey e.1 (required.contains e.1) := by
  rw [List.map_map]
  refine (map_eq_map (TypeExpr.forall₂_of_ofMembers h) fun e m hm => ?_).symm
  rw [Function.comp_apply, memberText, PropertyKey.render, hm.1]

/-! ## The three renderings -/

/-- The renderings of the object that is defined under `name` have these
members, each under the key of its property: the interface, the type in place
of a node, and whatever is stored as its expansion. What was kept before is
any memo; only what is found in it and not stored must be sound. -/
structure Rendered (defs : Definitions) (name : String) (node : Schema)
    (properties : List (String × Schema)) (required : List String) (members : List MemberText) :
    Prop where
  keyed : members.map Prod.fst = properties.map fun e => propertyKey e.1 (required.contains e.1)
  declared : ∀ p d q, (declare defs name node).result p = (.ok d, q) → d.HasMembers members
  inline : ∀ seen p r q, (∀ k ∈ seen, k ∈ keys defs) →
    (resolve defs seen node).result p = (.ok r, q) → r.type.HasMembers members
  stored : ∀ seen asked p o q made, (∀ k ∈ seen, k ∈ keys defs) →
    (resolve defs seen asked).result p = (o, q) → p.expansions.lookup name = none →
    q.expansions.lookup name = some made → made.type.HasMembers members
  kept : ∀ seen description p r q, (∀ k ∈ seen, k ∈ keys defs) → name ∉ seen →
    (resolve defs seen (.reference name description)).result p = (.ok r, q) →
    ∃ made, r.expansion = some made ∧ q.expansions.lookup name = some made ∧
      (p.expansions.lookup name = none ∨ Sound defs p.expansions → made.type.HasMembers members)

/-- A sound memo keeps the type of the definition. -/
theorem Sound.ofNode {kept : List (String × Resolution)} {r : Resolution} (h : Sound defs kept)
    (hdef : defs.lookup name = some node) (hkept : kept.lookup name = some r) :
    TypeExpr.ofNode (keys defs) node = .ok r.type := by
  obtain ⟨found, hfound, htype⟩ := h _ (mem_of_lookup hkept)
  obtain rfl : node = found := Option.some.inj (hdef.symm.trans hfound)
  exact htype

/-- An expansion that is there after a walk and was not before is of the type
of the definition, whatever else the memo has. -/
theorem Walk.ofNode_of_stored {ds : List Demand} {o : Except Failure Unit} {r : Resolution}
    (h : Walk defs seen ds p made o q) (hseen : ∀ k ∈ seen, k ∈ keys defs)
    (hdef : defs.lookup name = some node) (hnew : p.expansions.lookup name = none)
    (hstored : q.expansions.lookup name = some r) :
    TypeExpr.ofNode (keys defs) node = .ok r.type := by
  have hmade : made.lookup name = some r := by
    rw [h.grown.kept, List.lookup_append, hnew] at hstored
    exact hstored
  exact (h.sound_made hseen).ofNode hdef hmade

/-- The members are those that are read off the properties, if they have
types at all. -/
theorem rendered_of_ofMembers {declared format : Option String} {description : Option Data}
    {members : List MemberText}
    (hdef : defs.lookup name = some (.object declared format description properties required))
    (hkeyed : members.map Prod.fst =
      properties.map fun e => propertyKey e.1 (required.contains e.1))
    (hmembers : ∀ ts, TypeExpr.ofMembers (keys defs) required properties = .ok ts →
      ts.map memberText = members) :
    Rendered defs name (.object declared format description properties required) properties
      required members := by
  -- a type of the definition, wherever it comes from, is the one that is read off
  have hof : ∀ t : TypeExpr,
      TypeExpr.ofNode (keys defs) (.object declared format description properties required) =
        .ok t → t.HasMembers members := by
    intro t ht
    rw [TypeExpr.ofNode] at ht
    obtain ⟨ts, hts, rfl⟩ := of_map_ok ht
    rw [← hmembers ts hts]
    exact TypeExpr.hasMembers_object
  constructor
  case keyed => exact hkeyed
  case declared =>
    intro p d q h
    have hname : name ∈ keys defs := exists_lookup_iff.mp ⟨_, hdef⟩
    obtain ⟨ms, hbody, hms⟩ := (declare_yields hname p d q h).2.interface
    have htexts := hmembers _ (ofMembers_of_forall₂ hms)
    rw [List.map_map] at htexts
    rw [← htexts]
    exact Declaration.hasMembers_of_interface hbody
  case inline =>
    intro seen p r q hseen h
    exact hof _ (ofNode_of_resolve hseen h)
  case stored =>
    intro seen asked p o q made hseen h hnew hstored
    obtain ⟨stores, o', q', walk, hresult⟩ := @resolve_serves defs seen asked p
    obtain ⟨-, rfl⟩ := Prod.mk.inj (hresult.symm.trans h)
    exact hof _ (walk.ofNode_of_stored hseen hdef hnew hstored)
  case kept =>
    intro seen description p r q hseen hname h
    obtain ⟨⟨stores, walk⟩, hserved⟩ := resolve_serves.walk h
    obtain ⟨made, hmade⟩ := walk.exists_expansion hname hdef
    rw [served_followed hname hdef, hmade] at hserved
    cases hserved
    refine ⟨made, rfl, hmade, fun hmemo => hof _ ?_⟩
    rcases hmemo with hnew | hsound
    · exact walk.ofNode_of_stored hseen hdef hnew hmade
    · exact (walk.sound hseen hsound).ofNode hdef hmade

/-- **The renderings of an object agree**, whatever was kept before and
whatever is being expanded. Among JSON values, with comments that can be
written, all of them are made. -/
theorem renderings_agree {declared format : Option String} {description : Option Data}
    (hdef : defs.lookup name = some (.object declared format description properties required)) :
    (∃ members, Rendered defs name (.object declared format description properties required)
      properties required members) ∧
    ((∀ d ∈ defs, d.2.JsonValued) →
      (∀ seen, (∀ k ∈ seen, k ∈ keys defs) →
        Succeeds (resolve defs seen (.object declared format description properties required)) ∧
        ∀ text, Succeeds (resolve defs seen (.reference name text))) ∧
      ((Schema.object declared format description properties required).Commented →
        Succeeds
          (declare defs name (.object declared format description properties required)))) := by
  refine ⟨?_, fun hdefs => ?_⟩
  · cases hmembers : TypeExpr.ofMembers (keys defs) required properties with
    | ok ts =>
      refine ⟨_, rendered_of_ofMembers hdef (keys_of_ofMembers hmembers) fun ts' hts' => ?_⟩
      rw [Except.ok.inj (hts'.symm.trans hmembers)]
    | error e =>
      -- a value without a text: there is no rendering, and any list of the keys will do
      refine ⟨properties.map fun e => (propertyKey e.1 (required.contains e.1), ""),
        rendered_of_ofMembers hdef ?_ fun ts hts => ?_⟩
      · rw [List.map_map]
        rfl
      · rw [hmembers] at hts
        cases hts
  · have hnode := hdefs _ (mem_of_lookup hdef)
    have hname : name ∈ keys defs := exists_lookup_iff.mp ⟨_, hdef⟩
    refine ⟨fun seen hseen => ⟨resolve_succeeds hseen hdefs hnode, fun text => ?_⟩, ?_⟩
    · exact resolve_succeeds hseen hdefs fun v hv => by simp at hv
    · exact declare_succeeds hname hdefs hnode

/-- The object in the ring. -/
def ringNode : Schema :=
  .object (some "object") none none [("next", .reference "link" none)] []

/-- The object in the ring refers to itself through the alias, and has one
member wherever it is rendered. -/
theorem ring_renderings_agree :
    ring.lookup "node" = some ringNode ∧
      ∃ members, members = [("next?", "Link")] ∧
        Rendered ring "node" ringNode [("next", .reference "link" none)] [] members := by
  have hdef : ring.lookup "node" = some ringNode := rfl
  obtain ⟨⟨members, hrendered⟩, -⟩ := renderings_agree hdef
  refine ⟨hdef, members, ?_, hrendered⟩
  let node := Resolution.plain (.object [(⟨"next", false⟩, .named "Link")])
  have hrun : (resolve ring [] ringNode).result ⟨[], []⟩ =
      (.ok node, ⟨[("node", node), ("link", .mk (.named "Node") (some node))], []⟩) := by cbv
  obtain ⟨ms, hms, htexts, -⟩ := hrendered.inline _ _ _ _ (by simp) hrun
  cases hms
  rw [← htexts]
  decide

end TypeScript

end ApiMock
