import ApiMock.Log
import ApiMock.Text.Quoted
import ApiMock.TypeScript.Declaration
/-!
# TypeScript — resolving schemas

The type of a schema, given the definitions of its document. A reference
is the canonical name of its definition, or `any` if there is none. On
the way every definition that is referred to is expanded once, and its
expansion is kept for all later references of the same pass.

`seen` holds the definitions being expanded on the current chain of
references. A reference to one of them closes a cycle and is not followed.
Each step either goes down in the tree of a node or follows a reference
to a definition that is not in `seen`, so resolving ends.
-/

namespace ApiMock

namespace TypeScript

/-- A resolved type. For a reference that was followed, `expansion` is
the resolved definition. -/
inductive Resolution where
  | mk (type : TypeExpr) (expansion : Option Resolution)
  deriving Inhabited

namespace Resolution

/-- The type itself. -/
def type : Resolution → TypeExpr
  | mk t _ => t

/-- The resolved definition behind a reference. -/
def expansion : Resolution → Option Resolution
  | mk _ e => e

/-- A type that refers to nothing. -/
def plain (t : TypeExpr) : Resolution := mk t none

end Resolution

/-- What a pass has gathered: the expansions in the order they were made,
and the messages. -/
structure Pass where
  expansions : List (String × Resolution)
  log : List LogEntry
  deriving Inhabited

/-- A step of a pass. What was gathered stays when a step fails. -/
abbrev Resolving (α : Type) := ExceptT Failure (StateM Pass) α

/-- Adds a warning to the pass. -/
def warn (reporter : Reporter) (message : String) : Resolving Unit :=
  modify fun p => { p with log := p.log ++ [⟨.warning, reporter, message⟩] }

/-- A whole pass, which starts without expansions. -/
def Resolving.logged {α : Type} (x : Resolving α) : Logged α := fun log =>
  let (r, pass) := x.run.run ⟨[], log⟩
  (r, pass.log)

/-- Keeps the expansion of a definition. -/
def remember (name : String) (r : Resolution) : Resolving Unit :=
  modify fun p => { p with expansions := Entries.put name r p.expansions }

/-- The expansion of a definition, if the pass has made it. -/
def expansionOf? (name : String) : Resolving (Option Resolution) := do
  return (← get).expansions.lookup name

/-- The message for a reference without a definition. -/
def danglingMessage (target : String) : String :=
  s!"Unresolvable reference to {Text.quoted target}, using any"

/-- How many definitions are not being expanded. -/
def unseen (defs : Definitions) (seen : List String) : Nat :=
  defs.countP fun d => !seen.contains d.1

/-- Expanding one more definition leaves no more of them to expand. -/
theorem unseen_cons_le {defs : Definitions} {seen : List String} {name : String} :
    unseen defs (name :: seen) ≤ unseen defs seen := by
  apply List.countP_mono_left
  intro d _ hd
  simp only [List.contains_cons, Bool.not_or, Bool.and_eq_true] at hd
  exact hd.2

/-- Expanding a definition leaves fewer to expand. -/
theorem unseen_cons_lt {defs : Definitions} {seen : List String} {name : String} {node : Schema}
    (hdef : defs.lookup name = some node) (hseen : ¬ seen.contains name = true) :
    unseen defs (name :: seen) < unseen defs seen := by
  induction defs with
  | nil => simp at hdef
  | cons d rest ih =>
    have hle : unseen rest (name :: seen) ≤ unseen rest seen := unseen_cons_le
    simp only [unseen, List.countP_cons] at hle ih ⊢
    by_cases hk : name = d.1
    · have hnew : (!(name :: seen).contains d.1) = false := by simp [hk]
      have hold : (!seen.contains d.1) = true := by simpa [← hk] using hseen
      rw [if_pos hold, hnew]
      simpa using Nat.lt_succ_of_le hle
    · have hsame : (!(name :: seen).contains d.1) = !seen.contains d.1 := by
        simpa using fun _ => Ne.symm hk
      have hrest : rest.lookup name = some node := by
        rwa [List.lookup_cons, beq_eq_false_iff_ne.mpr hk] at hdef
      rw [hsame]
      exact Nat.add_lt_add_right (ih hrest) _

set_option linter.unusedVariables false in
mutual
/-- The type of a node in a place without a name. -/
def resolve (defs : Definitions) (seen : List String) (node : Schema) : Resolving Resolution :=
  match node with
  | .unknown _ => pure (.plain .any)
  | .primitive .. => pure (.plain (TypeExpr.ofForm node))
  | .array _ _ _ none => pure (.plain (.array .any))
  | .array _ _ _ (some items) => do
    return .plain (.array (← resolve defs seen items).type)
  | .enumeration _ _ _ [] => pure (.plain (TypeExpr.ofForm node))
  | .enumeration _ _ _ values => do
    return .plain (.union (← values.mapM fun v => (Literal.ofData v : Except Failure Literal)))
  | .object _ _ _ properties required => do
    return .plain (.object (← resolveMembers defs seen required properties))
  | .reference target _ =>
    if hs : seen.contains target then pure (.plain (.named (Naming.pascal target)))
    else
      match hd : defs.lookup target with
      | none => do
        warn .types (danglingMessage target)
        return .plain .any
      | some definition => do
        match ← expansionOf? target with
        | some known => return .mk (.named (Naming.pascal target)) (some known)
        | none =>
          let made ← resolve defs (target :: seen) definition
          remember target made
          return .mk (.named (Naming.pascal target)) (some made)
termination_by (unseen defs seen, sizeOf node)
decreasing_by
  all_goals first
    | (apply Prod.Lex.right; simp +arith)
    | (apply Prod.Lex.left; exact unseen_cons_lt hd hs)

/-- The types of the properties of an object. -/
def resolveMembers (defs : Definitions) (seen : List String) (required : List String)
    (properties : List (String × Schema)) : Resolving (List (PropertyKey × TypeExpr)) :=
  match properties with
  | [] => pure []
  | (name, property) :: rest => do
    let type := (← resolve defs seen property).type
    return (⟨name, required.contains name⟩, type) :: (← resolveMembers defs seen required rest)
termination_by (unseen defs seen, sizeOf properties)
decreasing_by
  all_goals (apply Prod.Lex.right; simp +arith)
end

/-! ## Declarations -/

/-- The properties of an interface, each behind its comment. -/
def resolveProperties (defs : Definitions) (seen : List String) (required : List String) :
    List (String × Schema) → Resolving (List Member)
  | [] => pure []
  | (name, property) :: rest => do
    let comment ← (commentOf property.description? : Except Failure (Option String))
    let type := (← resolve defs seen property).type
    return ⟨comment, ⟨name, required.contains name⟩, type⟩ ::
      (← resolveProperties defs seen required rest)

/-- The declaration of a definition: an interface for an object, an alias
for anything else. -/
def declare (defs : Definitions) (name : String) (node : Schema) : Resolving Declaration := do
  let body ←
    match node with
    | .object _ _ _ properties required =>
      Body.interface <$> resolveProperties defs [name] required properties
    | node => do pure (Body.alias (← resolve defs [name] node).type)
  let comment ← (commentOf node.description? : Except Failure (Option String))
  return ⟨Naming.pascal name, comment, body⟩

/-- The message for two definitions with one canonical name. -/
def collisionMessage (earlier later name : String) : String :=
  s!"Schemas {Text.quoted earlier} and {Text.quoted later} both emit type {name}; " ++
    s!"keeping {Text.quoted later}"

/-- A declaration together with the definition it comes from. -/
structure Declared where
  source : String
  declaration : Declaration

/-- Adds the declaration of a definition to a table; a definition with
the same canonical name is replaced, and that is reported. -/
def declareInto (defs : Definitions) (table : List (String × Declared)) (name : String)
    (node : Schema) : Resolving (List (String × Declared)) := do
  let declaration ← declare defs name node
  match table.lookup declaration.name with
  | some earlier => warn .types (collisionMessage earlier.source name declaration.name)
  | none => pure ()
  return Entries.put declaration.name ⟨name, declaration⟩ table

/-- The declarations of all definitions, by canonical name. -/
def declareAll (defs : Definitions) : Resolving (List (String × Declared)) :=
  defs.foldlM (fun table d => declareInto defs table d.1 d.2) []

end TypeScript

end ApiMock
