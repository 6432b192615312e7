import ApiMock.TypeScript.Resolve
/-!
# TypeScript — the equations of resolving

What resolving a node, declaring a definition and declaring all of them do
beside the calls that they make. The calls are an argument, so that other
ways of making them can be put in. With the calls of the program these are
the equations that the program solves.
-/

namespace ApiMock

namespace TypeScript

section

variable (defs : Definitions) (resolveIn : List String → Schema → Resolving Resolution)

/-- Resolving one node, with the calls it makes left open. -/
def resolveWith (seen : List String) : Schema → Resolving Resolution
  | .unknown _ => pure (.plain .any)
  | .primitive declared format description =>
    pure (.plain (TypeExpr.ofForm (.primitive declared format description)))
  | .array _ _ _ none => pure (.plain (.array .any))
  | .array _ _ _ (some items) => do
    return .plain (.array (← resolveIn seen items).type)
  | .enumeration declared format description [] =>
    pure (.plain (TypeExpr.ofForm (.enumeration declared format description [])))
  | .enumeration _ _ _ values => do
    return .plain (.union (← values.mapM fun v => (Literal.ofData v : Except Failure Literal)))
  | .object _ _ _ properties required => do
    return .plain (.object (← properties.mapM fun e => do
      return (⟨e.1, required.contains e.1⟩, (← resolveIn seen e.2).type)))
  | .reference target _ =>
    if seen.contains target then pure (.plain (.named (Naming.pascal target)))
    else
      match defs.lookup target with
      | none => do
        warn .types (danglingMessage target)
        return .plain .any
      | some definition => do
        match ← expansionOf? target with
        | some known => return .mk (.named (Naming.pascal target)) (some known)
        | none =>
          let made ← resolveIn (target :: seen) definition
          remember target made
          return .mk (.named (Naming.pascal target)) (some made)

/-- A property of an interface, behind its comment. -/
def memberWith (name : String) (required : List String) (e : String × Schema) :
    Resolving Member := do
  let comment ← (commentOf e.2.description? : Except Failure (Option String))
  return ⟨comment, ⟨e.1, required.contains e.1⟩, (← resolveIn [name] e.2).type⟩

/-- Declaring one definition, with the calls it makes left open. -/
def declareWith (name : String) (node : Schema) : Resolving Declaration := do
  let body ←
    match node with
    | .object _ _ _ properties required =>
      Body.interface <$> properties.mapM (memberWith resolveIn name required)
    | node => do pure (Body.alias (← resolveIn [name] node).type)
  let comment ← (commentOf node.description? : Except Failure (Option String))
  return ⟨Naming.pascal name, comment, body⟩

/-- Declaring all definitions, with the calls it makes left open. -/
def declareAllWith (declareIn : String → Schema → Resolving Declaration) :
    Resolving (List (String × Declared)) :=
  defs.foldlM (fun table d => do
    let declaration ← declareIn d.1 d.2
    match table.lookup declaration.name with
    | some earlier => warn .types (collisionMessage earlier.source d.1 declaration.name)
    | none => pure ()
    return Entries.put declaration.name ⟨d.1, declaration⟩ table) []

end

/-! ## Declarations by form -/

section

variable {resolveIn : List String → Schema → Resolving Resolution} {name : String}

/-- The declaration that a body becomes, if its comment can be written. -/
def declarationOf (name : String) (node : Schema) (body : Body) : Except Failure Declaration :=
  (fun comment => ⟨Naming.pascal name, comment, body⟩) <$> commentOf node.description?

/-- A node has the form that is declared as an interface, or another one. -/
theorem object_or_not (node : Schema) :
    (∃ t f d ps rs, node = .object t f d ps rs) ∨ ∀ t f d ps rs, node ≠ .object t f d ps rs := by
  by_cases h : ∃ t f d ps rs, node = .object t f d ps rs
  · exact .inl h
  · exact .inr fun t f d ps rs heq => h ⟨t, f, d, ps, rs, heq⟩

/-- An object is declared as an interface. -/
theorem declareWith_object {declared format : Option String} {description : Option Data}
    {properties : List (String × Schema)} {required : List String} :
    declareWith resolveIn name (.object declared format description properties required) =
      properties.mapM (memberWith resolveIn name required) >>= fun ms =>
        liftM (declarationOf name (.object declared format description properties required)
          (.interface ms)) := by
  rw [declareWith, bind_map_left]
  refine bind_congr fun ms => ?_
  rw [declarationOf]
  cases commentOf (Schema.object declared format description properties required).description? <;>
    rfl

/-- Anything else is declared as an alias. -/
theorem declareWith_alias {node : Schema} (h : ∀ t f d ps rs, node ≠ .object t f d ps rs) :
    declareWith resolveIn name node =
      resolveIn [name] node >>= fun r => liftM (declarationOf name node (.alias r.type)) := by
  rw [declareWith]
  · refine bind_congr fun r => ?_
    rw [pure_bind, declarationOf]
    cases commentOf node.description? <;> rfl
  · exact h

end

/-! ## The program solves the equations -/

variable {defs : Definitions}

theorem resolveMembers_eq_mapM {seen required : List String}
    {properties : List (String × Schema)} :
    resolveMembers defs seen required properties = properties.mapM fun e => do
      return (⟨e.1, required.contains e.1⟩, (← resolve defs seen e.2).type) := by
  induction properties with
  | nil =>
    rw [resolveMembers]
    rfl
  | cons e rest ih =>
    obtain ⟨name, property⟩ := e
    rw [resolveMembers, List.mapM_cons, ih]
    simp only [bind_assoc, pure_bind]

theorem resolveProperties_eq_mapM {name : String} {required : List String}
    {properties : List (String × Schema)} :
    resolveProperties defs [name] required properties =
      properties.mapM (memberWith (resolve defs) name required) := by
  induction properties with
  | nil => rfl
  | cons e rest ih =>
    obtain ⟨key, property⟩ := e
    rw [resolveProperties, List.mapM_cons, ih, memberWith]
    simp only [bind_assoc, pure_bind]

theorem resolve_eq_with {seen : List String} {node : Schema} :
    resolve defs seen node = resolveWith defs (resolve defs) seen node := by
  cases node with
  | array declared format description items => cases items <;> rw [resolve, resolveWith]
  | enumeration declared format description values =>
    cases values with
    | nil => rw [resolve, resolveWith]
    | cons v rest => rw [resolve, resolveWith] <;> simp
  | object declared format description properties required =>
    rw [resolve, resolveWith, resolveMembers_eq_mapM]
  | reference target description =>
    rw [resolve, resolveWith]
    by_cases hseen : seen.contains target = true
    · rw [dif_pos hseen, if_pos hseen]
    · rw [dif_neg hseen, if_neg hseen]
      -- the lookup is one that the termination proof reads, so it is split here
      split
      · rename_i hdef
        exact hdef ▸ rfl
      · rename_i hdef
        exact hdef ▸ rfl
  | _ => rw [resolve, resolveWith]

theorem declare_eq_with {name : String} {node : Schema} :
    declare defs name node = declareWith (resolve defs) name node := by
  cases node with
  | object declared format description properties required =>
    rw [declare, declareWith, resolveProperties_eq_mapM]
  | _ => rfl

end TypeScript

end ApiMock
