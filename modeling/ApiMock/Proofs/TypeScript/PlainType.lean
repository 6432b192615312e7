import ApiMock.Proofs.Data.JsonValue
import ApiMock.Proofs.Schema.Tree
import ApiMock.Proofs.Sequence
/-!
# TypeScript — the type of a node, read off

`TypeExpr.ofNode known` reads the type of a node off its tree and follows
no reference: one to a name in `known` is the canonical name, any other is
`any`. What it gives depends on `known` as a set only. It fails only at an
enumerated value without a text.
-/

namespace ApiMock

namespace TypeScript

open Sequence

/-- Every value that the node enumerates has a text. -/
def Printable (node : Schema) : Prop :=
  ∀ v, node.Enumerates v → ∃ l, Literal.ofData v = .ok l

namespace TypeExpr

mutual
/-- The type of a node among definitions of the names `known`. -/
def ofNode (known : List String) : Schema → Except Failure TypeExpr
  | .unknown _ => .ok any
  | .reference target _ =>
    .ok (if known.contains target then named (Naming.pascal target) else any)
  | .primitive declared format description =>
    .ok (ofForm (.primitive declared format description))
  | .array _ _ _ none => .ok (array any)
  | .array _ _ _ (some items) => array <$> ofNode known items
  | .object _ _ _ properties required => object <$> ofMembers known required properties
  | .enumeration declared format description [] =>
    .ok (ofForm (.enumeration declared format description []))
  | .enumeration _ _ _ values => union <$> values.mapM Literal.ofData

/-- The types of the properties of an object. -/
def ofMembers (known required : List String) :
    List (String × Schema) → Except Failure (List (PropertyKey × TypeExpr))
  | [] => .ok []
  | (name, property) :: rest => do
    let type ← ofNode known property
    return (⟨name, required.contains name⟩, type) :: (← ofMembers known required rest)
end

variable {known other : List String}

/-- Two sets of known names with the same members give the same types. -/
theorem ofNode_congr (h : ∀ n, n ∈ known ↔ n ∈ other) (s : Schema) :
    ofNode known s = ofNode other s := by
  induction s using Schema.induct with
  | reference target description =>
    have hc : known.contains target = other.contains target := by
      rw [Bool.eq_iff_iff, List.contains_iff_mem, List.contains_iff_mem]
      exact h target
    rw [ofNode, ofNode, hc]
  | array declared format description items ih => rw [ofNode, ofNode, ih]
  | object declared format description properties required ih =>
    have hmembers : ofMembers known required properties = ofMembers other required properties := by
      induction properties with
      | nil => rw [ofMembers, ofMembers]
      | cons e rest ihrest =>
        rw [ofMembers, ofMembers, ih e List.mem_cons_self,
          ihrest fun f hf => ih f (List.mem_cons_of_mem e hf)]
    rw [ofNode, ofNode, hmembers]
  | enumeration declared format description values =>
    cases values <;> rw [ofNode, ofNode] <;> simp
  | _ => rw [ofNode, ofNode]

/-- The members of an object have types if its properties have. -/
theorem ofMembers_isOk {required : List String} {properties : List (String × Schema)}
    (h : ∀ e ∈ properties, ∃ t, ofNode known e.2 = .ok t) :
    ∃ ts, ofMembers known required properties = .ok ts := by
  induction properties with
  | nil => exact ⟨[], by rw [ofMembers]⟩
  | cons e rest ih =>
    obtain ⟨t, ht⟩ := h e List.mem_cons_self
    obtain ⟨ts, hts⟩ := ih fun f hf => h f (List.mem_cons_of_mem e hf)
    exact ⟨_, by rw [ofMembers, ht, hts]; rfl⟩

/-- **A node whose enumerated values all have a text has a type.** -/
theorem ofNode_isOk {s : Schema} (h : Printable s) :
    ∃ t, ofNode known s = .ok t := by
  induction s using Schema.induct with
  | array declared format description items ih =>
    obtain ⟨t, ht⟩ := ih fun v hv => h v (by simpa using hv)
    exact ⟨_, by rw [ofNode, ht]; rfl⟩
  | object declared format description properties required ih =>
    obtain ⟨ts, hts⟩ : ∃ ts, ofMembers known required properties = .ok ts :=
      ofMembers_isOk fun e he => ih e he fun v hv =>
        h v (Schema.has_object.mpr (.inr ⟨e, he, hv⟩))
    exact ⟨_, by rw [ofNode, hts]; rfl⟩
  | enumeration declared format description values =>
    cases values with
    | nil => exact ⟨_, by rw [ofNode]⟩
    | cons v rest =>
      obtain ⟨ls, hls⟩ := mapM_isOk fun w hw => h w (Schema.enumerates_enumeration.mpr hw)
      exact ⟨_, by rw [ofNode, hls]; rfl; simp⟩
  | _ => exact ⟨_, by rw [ofNode]⟩

end TypeExpr

end TypeScript

end ApiMock
