import ApiMock.Proofs.Entries
import ApiMock.Proofs.TypeScript.Transparent
import Mathlib.Data.List.Infix
import Mathlib.Data.Option.Basic
/-!
# TypeScript — what a successful step yields

A step that succeeds keeps what was reported before it, and what is known
of its value follows from what is known of the values of the steps it is
made of. So a declaration has the canonical name of its definition and the
types that are read off its nodes.

The table is what is declared for the definitions, written in order under
the canonical names (`of_declareAll`). So it holds each canonical name
once, with the declaration of a definition that has it, and whenever one
declaration is written over another, that was reported.
-/

namespace ApiMock

namespace TypeScript

open Entries Resolving Sequence

/-- If the step succeeds, what was reported stays and its value satisfies
`P`. -/
def Yields {α : Type} (x : Resolving α) (P : α → Prop) : Prop :=
  ∀ p a q, x.result p = (.ok a, q) → p.log <+: q.log ∧ P a

namespace Yields

variable {α β ι : Type} {x : Resolving α} {P P' : α → Prop} {Q : β → Prop}

theorem pure {a : α} (h : P a) : Yields (pure a) P := by
  intro p b q hx
  cases hx
  exact ⟨List.prefix_rfl, h⟩

theorem lift {o : Except Failure α} (h : ∀ a, o = .ok a → P a) : Yields (liftM o) P := by
  intro p a q hx
  rw [result_lift] at hx
  obtain ⟨ho, rfl⟩ := Prod.mk.inj hx
  exact ⟨List.prefix_rfl, h a ho⟩

theorem mono (h : Yields x P) (hP : ∀ a, P a → P' a) : Yields x P' := by
  intro p a q hx
  obtain ⟨hlog, ha⟩ := h p a q hx
  exact ⟨hlog, hP a ha⟩

/-- The second of two steps may rely on what the first one yields. -/
theorem bind {f : α → Resolving β} (h : Yields x P) (hf : ∀ a, P a → Yields (f a) Q) :
    Yields (x >>= f) Q := by
  intro p b r hx
  obtain ⟨a, q, ha, hb⟩ := of_result_bind_ok hx
  obtain ⟨hlog, hP⟩ := h p a q ha
  obtain ⟨hlog', hQ⟩ := hf a hP q b r hb
  exact ⟨hlog.trans hlog', hQ⟩

theorem map {f : α → β} (h : Yields x P) (hf : ∀ a, P a → Q (f a)) : Yields (f <$> x) Q := by
  rw [← bind_pure_comp]
  exact h.bind fun a ha => .pure (hf a ha)

/-- A list of steps yields a value beside each element. -/
theorem mapM {f : ι → Resolving α} {R : ι → α → Prop} {is : List ι}
    (h : ∀ i ∈ is, Yields (f i) (R i)) : Yields (is.mapM f) (List.Forall₂ R is) := by
  induction is with
  | nil => exact .pure .nil
  | cons i rest ih =>
    rw [List.mapM_cons]
    refine (h i List.mem_cons_self).bind fun a ha => ?_
    refine (ih fun j hj => h j (List.mem_cons_of_mem i hj)).bind fun as has => ?_
    exact .pure (.cons ha has)

/-- A value that may be there yields one if it is. -/
theorem option {f : ι → Resolving α} {R : ι → α → Prop} {o : Option ι}
    (h : ∀ i ∈ o, Yields (f i) (R i)) : Yields (o.mapM f) (Option.Rel R o) := by
  cases o with
  | none => exact .pure .none
  | some i => exact (h i rfl).map fun a ha => .some ha

end Yields

/-! ## Resolving -/

section

variable {defs : Definitions} {seen : List String} {node : Schema} {name : String}

/-- A walk keeps what was reported. -/
theorem Walk.log_prefix {ds : List Demand} {p q : Pass} {made : List (String × Resolution)}
    {o : Except Failure Unit} (h : Walk defs seen ds p made o q) : p.log <+: q.log := by
  induction h with
  | done | unprintable => exact List.prefix_rfl
  | printed _ _ ih | closed _ _ ih | known _ _ _ _ ih => exact ih
  | dangling _ _ _ ih => exact (List.prefix_append _ _).trans ih
  | expanded _ _ _ _ _ _ ihbelow ih => exact ihbelow.trans ih
  | failed _ _ _ _ ih => exact ih

/-- **A resolved node has the type that is read off its tree**, and what
was reported stays. -/
theorem resolve_yields (hseen : ∀ k ∈ seen, k ∈ keys defs) :
    Yields (resolve defs seen node) fun r => TypeExpr.ofNode (keys defs) node = .ok r.type := by
  intro p r q h
  obtain ⟨⟨made, walk⟩, -⟩ := resolve_serves.walk h
  exact ⟨walk.log_prefix, ofNode_of_resolve hseen h⟩

end

/-! ## Declarations -/

/-- The body of a declaration has, for each node it is made of, a type that
`R` relates to the node. -/
inductive Body.For (R : Schema → TypeExpr → Prop) : Schema → Body → Prop where
  | object {declared format : Option String} {description : Option Data}
    {properties : List (String × Schema)} {required : List String} {members : List Member}
    (h : List.Forall₂ (fun e m => m.key = ⟨e.1, required.contains e.1⟩ ∧ R e.2 m.type)
      properties members) :
    For R (.object declared format description properties required) (.interface members)
  | other {node : Schema} {t : TypeExpr} (hnode : ∀ t f d ps rs, node ≠ .object t f d ps rs)
    (h : R node t) : For R node (.alias t)

/-- The types may be related more loosely. -/
theorem Body.For.mono {R R' : Schema → TypeExpr → Prop} {node : Schema} {body : Body}
    (h : Body.For R node body) (hR : ∀ s t, R s t → R' s t) : Body.For R' node body := by
  cases h with
  | object h => exact .object (h.imp fun _ _ hm => ⟨hm.1, hR _ _ hm.2⟩)
  | other hnode h => exact .other hnode (hR _ _ h)

/-- The declaration of a definition: it has the canonical name, and types
that are read off. -/
structure Declares (known : List String) (e : String × Schema) (d : Declaration) : Prop where
  name : d.name = Naming.pascal e.1
  body : Body.For (fun s t => TypeExpr.ofNode known s = .ok t) e.2 d.body

section

variable {defs : Definitions} {node : Schema} {name : String}

/-- **A declaration is that of its definition.** -/
theorem declare_yields (hname : name ∈ keys defs) :
    Yields (declare defs name node) (Declares (keys defs) (name, node)) := by
  have hseen : ∀ k ∈ [name], k ∈ keys defs := by simpa using hname
  have hof : ∀ body, Body.For (fun s t => TypeExpr.ofNode (keys defs) s = .ok t) node body →
      Yields (liftM (declarationOf name node body)) (Declares (keys defs) (name, node)) := by
    intro body hbody
    refine .lift fun d hd => ?_
    obtain ⟨comment, -, rfl⟩ := of_map_ok hd
    exact ⟨rfl, hbody⟩
  rcases object_or_not node with ⟨t, f, d, ps, rs, rfl⟩ | hnot
  · rw [declare_eq_with, declareWith_object]
    refine (Yields.mapM fun e _ => ?_).bind fun ms hms => hof _ (.object hms)
    refine (Yields.lift (P := fun _ => True) fun _ _ => trivial).bind fun comment _ => ?_
    exact (resolve_yields hseen).bind fun r hr => .pure ⟨rfl, hr⟩
  · rw [declare_eq_with, declareWith_alias hnot]
    exact (resolve_yields hseen).bind fun r hr => hof _ (.other hnot hr)

end

/-! ## The table of the declarations -/

section

variable {defs : Definitions} {table : List (String × Declared)} {p q : Pass}

/-- The messages for what is written over, from a table on. -/
def collisionsFrom (table : List (String × Declared)) : List Declared → List String
  | [] => []
  | d :: rest => collisions table d.source d.declaration ++
      collisionsFrom (put d.declaration.name d table) rest

/-- What is declared on a course is that of its definitions, and what is
written over was reported. -/
theorem Course.declares {rest : Definitions} {ds : List Declared}
    (h : Course defs rest table p ds q) (hin : ∀ e ∈ rest, e ∈ defs) :
    p.log <+: q.log ∧
      List.Forall₂ (fun e d => d.source = e.1 ∧ Declares (keys defs) e d.declaration) rest ds ∧
        ∀ m ∈ collisionsFrom table ds, ⟨.warning, .types, m⟩ ∈ q.log := by
  induction h with
  | done => exact ⟨List.prefix_rfl, .nil, by simp [collisionsFrom]⟩
  | @next name node rest table p inner q d ds hd onward ih =>
    have hname : name ∈ keys defs := List.mem_map_of_mem (hin (name, node) List.mem_cons_self)
    obtain ⟨hlog, hdeclares⟩ := declare_yields hname p d inner hd
    obtain ⟨hlater, hds, hreported⟩ := ih fun e he => hin e (List.mem_cons_of_mem _ he)
    refine ⟨(hlog.trans (List.prefix_append _ _)).trans hlater, .cons ⟨rfl, hdeclares⟩ hds, ?_⟩
    intro m hm
    rcases List.mem_append.mp hm with hm | hm
    · exact hlater.subset (List.mem_append_right _ (List.mem_map_of_mem hm))
    · exact hreported m hm

/-- **The table is what is declared for the definitions, written in order**,
and what is written over was reported. -/
theorem of_declareAll (h : (declareAll defs).result p = (.ok table, q)) :
    p.log <+: q.log ∧ ∃ ds : List Declared,
      List.Forall₂ (fun e d => d.source = e.1 ∧ Declares (keys defs) e d.declaration) defs ds ∧
        table = Entries.ofList (ds.map Declared.entry) ∧
        ∀ m ∈ collisionsFrom [] ds, ⟨.warning, .types, m⟩ ∈ q.log := by
  obtain ⟨ds, course, rfl⟩ := exists_course h
  obtain ⟨hlog, hds, hreported⟩ := course.declares fun _ he => he
  exact ⟨hlog, ds, hds, rfl, hreported⟩

/-- **The names in the table are the canonical names of the definitions**,
each once. -/
theorem keys_table {ds : List Declared}
    (hds : List.Forall₂ (fun e d => d.source = e.1 ∧ Declares (keys defs) e d.declaration) defs ds) :
    keys (Entries.ofList (ds.map Declared.entry)) =
      (defs.map fun e => Naming.pascal e.1).eraseDups := by
  rw [keys_ofList, keys, List.map_map, map_eq_map hds fun _ _ h => h.2.name.symm]
  rfl

/-- **What stands in the table is the declaration of a definition.** -/
theorem declares_of_mem_table {ds : List Declared}
    (hds : List.Forall₂ (fun e d => d.source = e.1 ∧ Declares (keys defs) e d.declaration) defs ds)
    {e : String × Declared} (he : e ∈ Entries.ofList (ds.map Declared.entry)) :
    e.2.declaration.name = e.1 ∧
      ∃ node, (e.2.source, node) ∈ defs ∧
        Declares (keys defs) (e.2.source, node) e.2.declaration := by
  obtain ⟨d, hd, rfl⟩ := List.mem_map.mp (mem_of_mem_ofList he)
  obtain ⟨⟨name, node⟩, hplace⟩ := exists_beside_right hds hd
  obtain ⟨hsource, hdeclares⟩ := List.forall₂_zip hds hplace
  have hin : (name, node) ∈ defs := (List.of_mem_zip hplace).1
  refine ⟨rfl, node, ?_, ?_⟩
  · rw [Declared.entry, hsource]
    exact hin
  · rw [Declared.entry, hsource]
    exact hdeclares

/-- What is reported of two parts, one behind the other. -/
theorem collisionsFrom_append {ds later : List Declared} :
    collisionsFrom table (ds ++ later) =
      collisionsFrom table ds ++ collisionsFrom (merge table (ds.map Declared.entry)) later := by
  induction ds generalizing table with
  | nil => rfl
  | cons d rest ih =>
    rw [List.cons_append, collisionsFrom, collisionsFrom, ih, List.append_assoc]
    rfl

/-- **A name that is taken is reported.** -/
theorem exists_collision {before after : List Declared} {d : Declared}
    (hd : d.declaration.name ∈ before.map fun e => e.declaration.name) :
    ∃ earlier ∈ before, earlier.declaration.name = d.declaration.name ∧
      collisionMessage earlier.source d.source d.declaration.name ∈
        collisionsFrom [] (before ++ d :: after) := by
  have hkey : d.declaration.name ∈ keys (Entries.ofList (before.map Declared.entry)) := by
    rw [keys_ofList, List.mem_eraseDups, keys, List.map_map]
    exact hd
  obtain ⟨earlier, hlookup⟩ := exists_lookup_iff.mpr hkey
  obtain ⟨e, he, hentry⟩ := List.mem_map.mp (mem_of_mem_ofList (mem_of_lookup hlookup))
  obtain ⟨hname, rfl⟩ := Prod.mk.inj hentry
  refine ⟨e, he, hname, ?_⟩
  have hmessage : collisions (Entries.ofList (before.map Declared.entry)) d.source d.declaration =
      [collisionMessage e.source d.source d.declaration.name] := by
    rw [collisions, hlookup]
  have hsteps : collisionsFrom [] (before ++ d :: after) =
      collisionsFrom [] before ++
        (collisions (Entries.ofList (before.map Declared.entry)) d.source d.declaration ++ _) :=
    collisionsFrom_append
  rw [hsteps, hmessage]
  exact List.mem_append_right _ List.mem_cons_self

end

end TypeScript

end ApiMock
