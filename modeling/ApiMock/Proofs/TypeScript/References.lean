import ApiMock.Proofs.TypeScript.PlainType
/-!
# TypeScript — references and how they are written

A node and its type have the same form down to the references of the node,
so each of these has a place in the type. `WrittenAs` says what stands
there. In a type that is read off a node a reference is the canonical name
of its target, if that is known, and `any` otherwise; and no declared type
is named in any other place.
-/

namespace ApiMock

namespace TypeScript

open Sequence

variable {known declared : List String} {s : Schema} {t : TypeExpr} {target : String}

namespace TypeExpr

mutual
/-- The declared types that a type names, in order. -/
def names : TypeExpr → List String
  | named name => [name]
  | array element => element.names
  | object members => namesOf members
  | any | keyword _ | union _ => []

/-- The declared types that the members of an object type name. -/
def namesOf : List (PropertyKey × TypeExpr) → List String
  | [] => []
  | (_, t) :: rest => t.names ++ namesOf rest
end

/-- A type with a keyword names nothing. -/
theorem names_ofDeclared (word : Option String) : (ofDeclared word).names = [] := by
  rw [ofDeclared]
  split <;> rw [names]

/-- What the members of an object type name, one of them names. -/
theorem exists_of_mem_namesOf {members : List (PropertyKey × TypeExpr)} {n : String}
    (h : n ∈ namesOf members) : ∃ m ∈ members, n ∈ m.2.names := by
  induction members with
  | nil =>
    rw [namesOf] at h
    cases h
  | cons m rest ih =>
    rw [namesOf, List.mem_append] at h
    rcases h with h | h
    · exact ⟨m, List.mem_cons_self, h⟩
    · obtain ⟨k, hk, h⟩ := ih h
      exact ⟨k, List.mem_cons_of_mem m hk, h⟩

/-- The members of an object type stand beside the properties they are of. -/
theorem forall₂_of_ofMembers {required : List String} {properties : List (String × Schema)}
    {members : List (PropertyKey × TypeExpr)}
    (h : ofMembers known required properties = .ok members) :
    List.Forall₂ (fun e m => m.1 = ⟨e.1, required.contains e.1⟩ ∧ ofNode known e.2 = .ok m.2)
      properties members := by
  induction properties generalizing members with
  | nil =>
    rw [ofMembers] at h
    cases h
    exact .nil
  | cons e rest ih =>
    rw [ofMembers] at h
    obtain ⟨t, ht, h⟩ := of_bind_ok h
    obtain ⟨ts, hts, h⟩ := of_bind_ok h
    cases h
    exact .cons ⟨rfl, ht⟩ (ih hts)

end TypeExpr

open TypeExpr

/-- `WrittenAs s t target u` says that where the node `s` has a reference to
`target`, the type `t` has `u`. -/
inductive WrittenAs : Schema → TypeExpr → String → TypeExpr → Prop where
  | here {description : Option Data} {target : String} {u : TypeExpr} :
    WrittenAs (.reference target description) u target u
  | element {declared format : Option String} {description : Option Data} {items : Schema}
    {t u : TypeExpr} {target : String} (h : WrittenAs items t target u) :
    WrittenAs (.array declared format description (some items)) (.array t) target u
  | member {declared format : Option String} {description : Option Data}
    {properties : List (String × Schema)} {required : List String}
    {members : List (PropertyKey × TypeExpr)} {e : String × Schema} {m : PropertyKey × TypeExpr}
    {u : TypeExpr} {target : String} (hplace : (e, m) ∈ properties.zip members)
    (h : WrittenAs e.2 m.2 target u) :
    WrittenAs (.object declared format description properties required) (.object members) target u

/-- All references of a node are settled in its type: one to a known target
is the canonical name of the target, which is declared, and any other is
`any`. Nothing else in the type names a declared type. -/
structure Settled (known declared : List String) (s : Schema) (t : TypeExpr) : Prop where
  placed : ∀ target, s.Mentions target → ∃ u, WrittenAs s t target u
  ofMem : ∀ target u, WrittenAs s t target u → target ∈ known →
    u = .named (Naming.pascal target) ∧ Naming.pascal target ∈ declared
  ofNotMem : ∀ target u, WrittenAs s t target u → target ∉ known → u = .any
  named : ∀ n ∈ t.names, ∃ target, WrittenAs s t target (.named n)

/-! ## The type that is read off -/

/-- Every reference has its place. -/
theorem exists_writtenAs (h : ofNode known s = .ok t) (hs : s.Mentions target) :
    ∃ u, WrittenAs s t target u := by
  induction s using Schema.induct generalizing t with
  | reference name description =>
    obtain rfl : name = target := by simpa using hs
    exact ⟨t, .here⟩
  | array word format description items ih =>
    rw [ofNode] at h
    obtain ⟨element, helement, rfl⟩ := of_map_ok h
    obtain ⟨u, hu⟩ := ih helement (by simpa using hs)
    exact ⟨u, .element hu⟩
  | object word format description properties required ih =>
    rw [ofNode] at h
    obtain ⟨members, hmembers, rfl⟩ := of_map_ok h
    obtain ⟨e, he, hs⟩ : ∃ e ∈ properties, e.2.Mentions target := by
      simpa using Schema.has_object.mp hs
    have hbeside := forall₂_of_ofMembers hmembers
    obtain ⟨m, hplace⟩ := exists_beside_left hbeside he
    obtain ⟨u, hu⟩ := ih e he (List.forall₂_zip hbeside hplace).2 hs
    exact ⟨u, .member hplace hu⟩
  -- in any other node there is no reference
  | _ => simp at hs

/-- **At its place a reference is the canonical name of a known target**,
and `any` for any other. -/
theorem eq_of_writtenAs {u : TypeExpr} (h : ofNode known s = .ok t)
    (hu : WrittenAs s t target u) :
    u = if target ∈ known then .named (Naming.pascal target) else .any := by
  induction hu with
  | here =>
    rw [ofNode] at h
    cases h
    simp
  | element _ ih =>
    rw [ofNode] at h
    obtain ⟨element, helement, heq⟩ := of_map_ok h
    cases heq
    exact ih helement
  | member hplace _ ih =>
    rw [ofNode] at h
    obtain ⟨members, hmembers, heq⟩ := of_map_ok h
    cases heq
    exact ih (List.forall₂_zip (forall₂_of_ofMembers hmembers) hplace).2

/-- A declared type is named at the place of a reference only. -/
theorem exists_writtenAs_of_mem_names {n : String} (h : ofNode known s = .ok t)
    (hn : n ∈ t.names) : ∃ target, WrittenAs s t target (.named n) := by
  induction s using Schema.induct generalizing t with
  | reference name description =>
    rw [ofNode] at h
    cases h
    split at hn
    · rename_i hknown
      rw [names, List.mem_singleton] at hn
      rw [if_pos hknown, hn]
      exact ⟨name, .here⟩
    · rw [names] at hn
      cases hn
  | array word format description items ih =>
    rw [ofNode] at h
    obtain ⟨element, helement, rfl⟩ := of_map_ok h
    rw [names] at hn
    obtain ⟨target, htarget⟩ := ih helement hn
    exact ⟨target, .element htarget⟩
  | object word format description properties required ih =>
    rw [ofNode] at h
    obtain ⟨members, hmembers, rfl⟩ := of_map_ok h
    rw [names] at hn
    obtain ⟨m, hm, hn⟩ := exists_of_mem_namesOf hn
    have hbeside := forall₂_of_ofMembers hmembers
    obtain ⟨e, hplace⟩ := exists_beside_right hbeside hm
    obtain ⟨target, htarget⟩ :=
      ih e (List.of_mem_zip hplace).1 (List.forall₂_zip hbeside hplace).2 hn
    exact ⟨target, .member hplace htarget⟩
  | primitive word format description =>
    rw [ofNode] at h
    cases h
    rw [ofForm, names_ofDeclared] at hn
    cases hn
  | enumeration word format description values =>
    cases values with
    | nil =>
      rw [ofNode] at h
      cases h
      rw [ofForm, names_ofDeclared] at hn
      cases hn
    | cons v rest =>
      rw [ofNode] at h
      · obtain ⟨ls, -, rfl⟩ := of_map_ok h
        rw [names] at hn
        cases hn
      · simp
  | unknown description =>
    rw [ofNode] at h
    cases h
    cases hn
  | bare word format description =>
    rw [ofNode] at h
    cases h
    cases hn

/-- **In the type that is read off a node all references are settled**, once
the canonical names of the known targets are declared. -/
theorem settled_of_ofNode (hknown : ∀ k ∈ known, Naming.pascal k ∈ declared)
    (h : ofNode known s = .ok t) : Settled known declared s t where
  placed _ hs := exists_writtenAs h hs
  ofMem target u hu htarget := by
    rw [eq_of_writtenAs h hu, if_pos htarget]
    exact ⟨rfl, hknown target htarget⟩
  ofNotMem target u hu htarget := by
    rw [eq_of_writtenAs h hu, if_neg htarget]
  named _ hn := exists_writtenAs_of_mem_names h hn

/-- So whatever is named in the type is declared. -/
theorem Settled.mem_declared (h : Settled known declared s t) {n : String} (hn : n ∈ t.names) :
    n ∈ declared := by
  obtain ⟨target, htarget⟩ := h.named n hn
  by_cases hknown : target ∈ known
  · obtain ⟨heq, hin⟩ := h.ofMem target _ htarget hknown
    cases heq
    exact hin
  · cases h.ofNotMem target _ htarget hknown

end TypeScript

end ApiMock
