import ApiMock.Proofs.Document.JsonValues
import ApiMock.Proofs.TypeScript.Result
import ApiMock.Proofs.TypeScript.Memo
/-!
# TypeScript — the type does not depend on the memo

Whatever is kept when a node is resolved, kept soundly or not, its type is
the one that is read off its tree. The memo and the definitions that are
being expanded decide which definitions are expanded, and never a type.
Resolving fails only at an enumerated value without a text, so among JSON
values it does not fail.
-/

namespace ApiMock

namespace TypeScript

open Entries Resolving Sequence

variable {defs other : Definitions} {seen : List String} {node : Schema} {ds : List Demand}
  {p q : Pass} {made : List (String × Resolution)} {r : Resolution} {e : Failure}

/-- A walk that fails does so at values without a text, among what it is
asked for or in a definition. -/
theorem Walk.culprit (h : Walk defs seen ds p made (.error e) q) :
    ∃ values, (.literals values ∈ ds ∨ ∃ d ∈ defs, .literals values ∈ demands d.2) ∧
      values.mapM Literal.ofData = .error e := by
  generalize herror : (Except.error e : Except Failure Unit) = o at h
  induction h with
  | done => cases herror
  | unprintable h =>
    cases herror
    exact ⟨_, .inl List.mem_cons_self, h⟩
  | failed _ hdef _ _ ih =>
    -- what is asked for below stands in the definition
    cases herror
    obtain ⟨values, hin, hvalues⟩ := ih rfl
    refine ⟨values, .inr ?_, hvalues⟩
    exact hin.elim (fun hin => ⟨_, mem_of_lookup hdef, hin⟩) id
  | printed _ _ ih | closed _ _ ih | dangling _ _ _ ih | known _ _ _ _ ih
  | expanded _ _ _ _ _ _ _ ih =>
    obtain ⟨values, hin, hvalues⟩ := ih herror
    exact ⟨values, hin.imp (List.mem_cons_of_mem _) id, hvalues⟩

/-- **A resolved node has the type that is read off its tree.** -/
theorem ofNode_of_resolve (hseen : ∀ k ∈ seen, k ∈ keys defs)
    (h : (resolve defs seen node).result p = (.ok r, q)) :
    TypeExpr.ofNode (keys defs) node = .ok r.type :=
  ofNode_of_served hseen (resolve_serves.walk h).2

/-- **A node fails to resolve only for want of a text of a value**, which
the node enumerates or a definition does. -/
theorem culprit_of_resolve (h : (resolve defs seen node).result p = (.error e, q)) :
    ∃ v, (node.Enumerates v ∨ ∃ d ∈ defs, d.2.Enumerates v) ∧ Literal.ofData v = .error e := by
  rcases resolve_serves.walk_of_error h with ⟨made, walk⟩ | ⟨made, walk, hserved⟩
  · obtain ⟨values, hin, hvalues⟩ := walk.culprit
    obtain ⟨v, hv, herror⟩ := exists_of_mapM_error hvalues
    refine ⟨v, hin.imp (fun hin => ?_) fun ⟨d, hd, hin⟩ => ⟨d, hd, ?_⟩, herror⟩
    · exact literals_mem_demands.mp ⟨values, hin, hv⟩
    · exact literals_mem_demands.mp ⟨values, hin, hv⟩
  · obtain ⟨res, hres⟩ := walk.served_isOk
    rw [hres] at hserved
    cases hserved

/-- **If all values have texts a node resolves**, to the type read off its tree. -/
theorem resolve_isOk_of_printable (hseen : ∀ k ∈ seen, k ∈ keys defs)
    (hdefs : ∀ d ∈ defs, Printable d.2) (hnode : Printable node) :
    ∃ r q, (resolve defs seen node).result p = (.ok r, q) ∧
      TypeExpr.ofNode (keys defs) node = .ok r.type := by
  cases h : (resolve defs seen node).result p with
  | mk o q =>
    cases o with
    | ok r => exact ⟨r, q, rfl, ofNode_of_resolve hseen h⟩
    | error e =>
      obtain ⟨v, hv, herror⟩ := culprit_of_resolve h
      obtain ⟨l, hl⟩ := hv.elim (hnode v) fun ⟨d, hd, hv⟩ => hdefs d hd v hv
      rw [hl] at herror
      cases herror

/-- JSON values have texts. -/
theorem printable_of_jsonValued (h : node.JsonValued) : Printable node :=
  fun v hv => Literal.ofData_isOk (h v hv)

/-- **Among JSON values a node resolves**, to the type read off its tree. -/
theorem resolve_isOk (hseen : ∀ k ∈ seen, k ∈ keys defs) (hdefs : ∀ d ∈ defs, d.2.JsonValued)
    (hnode : node.JsonValued) :
    ∃ r q, (resolve defs seen node).result p = (.ok r, q) ∧
      TypeExpr.ofNode (keys defs) node = .ok r.type :=
  resolve_isOk_of_printable hseen (fun d hd => printable_of_jsonValued (hdefs d hd))
    (printable_of_jsonValued hnode)

/-- Resolutions of one type. -/
def SameType (r r' : Resolution) : Prop := r.type = r'.type

/-- **Resolving a node among definitions of the same names is alike**, whatever
the definitions are and whatever is kept of them, if all values have texts. -/
theorem resolve_alike_of_printable {seen' : List String}
    (hkeys : ∀ k, k ∈ keys defs ↔ k ∈ keys other)
    (hseen : ∀ k ∈ seen, k ∈ keys defs) (hseen' : ∀ k ∈ seen', k ∈ keys other)
    (hdefs : ∀ d ∈ defs, Printable d.2) (hother : ∀ d ∈ other, Printable d.2)
    (hnode : Printable node) :
    Alike SameType (resolve defs seen node) (resolve other seen' node) := by
  intro p q
  obtain ⟨r, p', h, htype⟩ := resolve_isOk_of_printable (p := p) hseen hdefs hnode
  obtain ⟨r', q', h', htype'⟩ := resolve_isOk_of_printable (p := q) hseen' hother hnode
  rw [h, h']
  rw [TypeExpr.ofNode_congr hkeys, htype'] at htype
  exact (Except.ok.inj htype).symm

/-- So it is for JSON values. -/
theorem resolve_alike {seen' : List String} (hkeys : ∀ k, k ∈ keys defs ↔ k ∈ keys other)
    (hseen : ∀ k ∈ seen, k ∈ keys defs) (hseen' : ∀ k ∈ seen', k ∈ keys other)
    (hdefs : ∀ d ∈ defs, d.2.JsonValued) (hother : ∀ d ∈ other, d.2.JsonValued)
    (hnode : node.JsonValued) :
    Alike SameType (resolve defs seen node) (resolve other seen' node) :=
  resolve_alike_of_printable hkeys hseen hseen' (fun d hd => printable_of_jsonValued (hdefs d hd))
    (fun d hd => printable_of_jsonValued (hother d hd)) (printable_of_jsonValued hnode)

/-! ## Declarations -/

section

variable {x y : List String → Schema → Resolving Resolution} {name : String}

/-- **Declaring is alike if resolving the nodes in the tree is.** -/
theorem declareWith_alike_of_within
    (h : ∀ s, Schema.Within s node → Alike SameType (x [name] s) (y [name] s)) :
    Alike Eq (declareWith x name node) (declareWith y name node) := by
  rcases object_or_not node with ⟨t, f, d, ps, rs, rfl⟩ | hnot
  · rw [declareWith_object, declareWith_object]
    have hmembers : Alike Eq (ps.mapM (memberWith x name rs)) (ps.mapM (memberWith y name rs)) := by
      refine .mapM fun e he => (Alike.lift _).bind fun comment comment' hcomment => ?_
      have hproperty := h e.2 (.property he .self)
      exact hproperty.bind fun r r' hr => .pure (by rw [hcomment, hr])
    refine hmembers.bind ?_
    rintro ms _ rfl
    exact .lift _
  · rw [declareWith_alias hnot, declareWith_alias hnot]
    refine (h node .self).bind fun r r' hr => ?_
    rw [hr]
    exact .lift _

/-- **A definition is declared alike from any two passes**, if the values in
the definitions have texts. -/
theorem declare_alike_of_printable (hname : name ∈ keys defs) (hdefs : ∀ d ∈ defs, Printable d.2)
    (hnode : Printable node) : Alike Eq (declare defs name node) (declare defs name node) := by
  have hseen : ∀ k ∈ [name], k ∈ keys defs := by simpa using hname
  rw [declare_eq_with]
  refine declareWith_alike_of_within fun s hs => ?_
  have hprintable : Printable s := fun v hv => hnode v (hs.has hv)
  exact resolve_alike_of_printable (fun _ => Iff.rfl) hseen hseen hdefs hdefs hprintable

end

end TypeScript

end ApiMock
