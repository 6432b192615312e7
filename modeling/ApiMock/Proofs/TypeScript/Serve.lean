import ApiMock.Proofs.Schema.Tree
import ApiMock.Proofs.TypeScript.Equations
import ApiMock.Proofs.TypeScript.Walk
import Mathlib.Order.Defs.Unbundled
/-!
# TypeScript — resolving is a walk

`resolve_serves` ties resolving to the walk: resolving a node serves the
demands of the node, and then gives the type that is read off its tree.
Declaring a definition serves the demands of its node while the definition
itself counts as being expanded, and declaring all of them is a sweep of
such walks.

A step that fails leaves what was gathered by then. What holds of the pass
before and after a step, failed or not, is told by a relation between the
two (`Moves`). If it is reflexive and transitive, steps put together are
related by it once their parts are, and so are the declaration of a
definition and that of all of them once the nodes they resolve are.
-/

namespace ApiMock

namespace TypeScript

open Resolving Sequence

variable {defs : Definitions} {seen : List String} {target : String} {node : Schema}
  {p q r : Pass} {made later : List (String × Resolution)}

/-! ## What a reference is served -/

section

variable {description : Option Data}

/-- A reference that closes a cycle is the name alone. -/
theorem served_closed (h : target ∈ seen) :
    served defs seen (.reference target description) q =
      .ok (.plain (.named (Naming.pascal target))) := by
  have hc : seen.contains target = true := List.contains_iff_mem.mpr h
  have hin : (seen ++ Entries.keys defs).contains target = true :=
    List.contains_iff_mem.mpr (List.mem_append_left _ h)
  rw [served, TypeExpr.ofNode, if_pos hin, link, hc]
  rfl

/-- A reference to nothing is `any`. -/
theorem served_dangling (hseen : target ∉ seen) (hdef : defs.lookup target = none) :
    served defs seen (.reference target description) q = .ok (.plain .any) := by
  have hin : ¬ (seen ++ Entries.keys defs).contains target = true := by
    rw [List.contains_iff_mem, List.mem_append]
    exact fun h => h.elim hseen (Entries.lookup_eq_none_iff.mp hdef)
  rw [served, TypeExpr.ofNode, if_neg hin, link, hdef]
  simp
  rfl

/-- Any other reference is the name, with what is kept of the definition. -/
theorem served_followed {definition : Schema} (hseen : target ∉ seen)
    (hdef : defs.lookup target = some definition) :
    served defs seen (.reference target description) q =
      .ok ⟨.named (Naming.pascal target), q.expansions.lookup target⟩ := by
  have hc : seen.contains target = false := by simpa using hseen
  have hin : (seen ++ Entries.keys defs).contains target = true :=
    List.contains_iff_mem.mpr
      (List.mem_append_right _ (Entries.exists_lookup_iff.mp ⟨definition, hdef⟩))
  rw [served, TypeExpr.ofNode, if_pos hin, link, hc, hdef]
  rfl

end

/-! ## Resolving is a walk -/

/-- The step serves the demands, and then gives what `f` says of the pass
that is left. -/
def Serves {α : Type} (defs : Definitions) (seen : List String) (ds : List Demand)
    (x : Resolving α) (f : Pass → Except Failure α) : Prop :=
  ∀ p, ∃ made o q, Walk defs seen ds p made o q ∧ x.result p = (o >>= fun _ => f q, q)

namespace Serves

variable {α β : Type} {ds xs ys : List Demand} {x : Resolving α} {f : Pass → Except Failure α}

theorem pure {a : α} : Serves defs seen [] (pure a) fun _ => .ok a :=
  fun p => ⟨[], .ok (), p, .done, rfl⟩

theorem map (g : α → β) (h : Serves defs seen ds x f) :
    Serves defs seen ds (g <$> x) fun q => g <$> f q := by
  intro p
  obtain ⟨made, o, q, walk, hx⟩ := h p
  refine ⟨made, o, q, walk, ?_⟩
  rw [result_map hx]
  cases o <;> rfl

theorem congr {g : Pass → Except Failure α} (h : Serves defs seen ds x f)
    (hfg : ∀ q, f q = g q) : Serves defs seen ds x g :=
  funext hfg ▸ h

/-- Asking for the texts of values is a demand of its own. -/
theorem literals {values : List Data} :
    Serves defs seen [.literals values] (liftM (values.mapM Literal.ofData)) fun _ =>
      values.mapM Literal.ofData := by
  intro p
  rw [result_lift]
  cases h : values.mapM Literal.ofData with
  | error e => exact ⟨[], .error e, p, .unprintable h, rfl⟩
  | ok ls => exact ⟨[], .ok (), p, .printed h .done, rfl⟩

/-- Two steps in a row serve their demands in a row. The first must give a
value whenever its demands are served. -/
theorem bind {a : Except Failure α} {g : α → Resolving β} {b : α → Except Failure β}
    (h : Serves defs seen xs x fun _ => a)
    (hok : ∀ p made q, Walk defs seen xs p made (.ok ()) q → ∃ v, a = .ok v)
    (hg : ∀ v, Serves defs seen ys (g v) fun _ => b v) :
    Serves defs seen (xs ++ ys) (x >>= g) fun _ => a >>= b := by
  intro p
  obtain ⟨made, o, q, walk, hx⟩ := h p
  cases o with
  | error e =>
    -- the demands of the second step are never reached
    exact ⟨made, .error e, q, walk.stop, result_bind_of_error hx⟩
  | ok u =>
    obtain ⟨v, rfl⟩ := hok p made q walk
    obtain ⟨later, o, r, onward, hy⟩ := hg v q
    refine ⟨made ++ later, o, r, walk.append onward, ?_⟩
    rw [result_bind_of_ok hx, hy]
    rfl

section

variable {description : Option Data}

/-- A reference that closes a cycle demands nothing of the pass. -/
theorem closed (hseen : target ∈ seen) :
    Serves defs seen (demands (.reference target description))
      (resolve defs seen (.reference target description))
      (served defs seen (.reference target description)) := by
  intro p
  refine ⟨[], .ok (), p, .closed hseen .done, ?_⟩
  rw [resolve_eq_with, resolveWith, if_pos (List.contains_iff_mem.mpr hseen), served_closed hseen]
  rfl

/-- A reference to nothing is reported. -/
theorem dangling (hseen : target ∉ seen) (hdef : defs.lookup target = none) :
    Serves defs seen (demands (.reference target description))
      (resolve defs seen (.reference target description))
      (served defs seen (.reference target description)) := by
  intro p
  refine ⟨[], .ok (), p.dangled target, .dangling hseen hdef .done, ?_⟩
  have hnot : ¬ seen.contains target = true := fun h => hseen (List.contains_iff_mem.mp h)
  rw [resolve_eq_with, resolveWith, if_neg hnot, hdef, served_dangling hseen hdef,
    result_bind_of_ok result_warn]
  rfl

/-- A reference to a definition that is not being expanded asks for its
expansion, and makes and stores it if there is none. -/
theorem reference {definition : Schema} (hseen : target ∉ seen)
    (hdef : defs.lookup target = some definition)
    (h : Serves defs (target :: seen) (demands definition)
      (resolve defs (target :: seen) definition) (served defs (target :: seen) definition)) :
    Serves defs seen (demands (.reference target description))
      (resolve defs seen (.reference target description))
      (served defs seen (.reference target description)) := by
  intro p
  have hnot : ¬ seen.contains target = true := fun h => hseen (List.contains_iff_mem.mp h)
  rw [resolve_eq_with, resolveWith, if_neg hnot, hdef]
  cases hknown : p.expansions.lookup target with
  | some r =>
    refine ⟨[], .ok (), p, .known hseen hdef hknown .done, ?_⟩
    simp only [result_bind_of_ok result_expansionOf?, served_followed hseen hdef, hknown]
    rfl
  | none =>
    obtain ⟨made, o, q, walk, hx⟩ := h p
    simp only [result_bind_of_ok result_expansionOf?, hknown]
    cases o with
    | error e =>
      exact ⟨made, .error e, q, .failed hseen hdef hknown walk, result_bind_of_error hx⟩
    | ok u =>
      -- the demands of the definition are served, so there is something to store
      obtain ⟨r, hr⟩ := walk.served_isOk
      have hmade : (resolve defs (target :: seen) definition).result p = (.ok r, q) := by
        rw [hx, hr]
        rfl
      have hstored : (q.stored target r).expansions.lookup target = some r :=
        Entries.lookup_put_self
      refine ⟨made ++ [(target, r)], .ok (), q.stored target r,
        .expanded hseen hdef hknown walk hr .done, ?_⟩
      rw [result_bind_of_ok hmade, result_bind_of_ok result_remember,
        served_followed hseen hdef, hstored]
      rfl

end

/-- A step that gives a value has served its demands. -/
theorem walk {a : α} (h : Serves defs seen ds x f) (hx : x.result p = (.ok a, q)) :
    (∃ made, Walk defs seen ds p made (.ok ()) q) ∧ f q = .ok a := by
  obtain ⟨made, o, q', walk, hserved⟩ := h p
  obtain ⟨ho, rfl⟩ := Prod.mk.inj (hserved.symm.trans hx)
  obtain ⟨⟨⟩, rfl, ha⟩ := of_bind_ok ho
  exact ⟨⟨made, walk⟩, ha⟩

/-- A step that fails does so in serving its demands or after that. -/
theorem walk_of_error {e : Failure} (h : Serves defs seen ds x f)
    (hx : x.result p = (.error e, q)) :
    (∃ made, Walk defs seen ds p made (.error e) q) ∨
      ∃ made, Walk defs seen ds p made (.ok ()) q ∧ f q = .error e := by
  obtain ⟨made, o, q', walk, hserved⟩ := h p
  obtain ⟨ho, rfl⟩ := Prod.mk.inj (hserved.symm.trans hx)
  cases o with
  | error e' =>
    cases ho
    exact .inl ⟨made, walk⟩
  | ok u => exact .inr ⟨made, walk, ho⟩

end Serves

/-- **Resolving serves the demands of the node, and then gives what is read
off its tree.** -/
theorem resolve_serves :
    Serves defs seen (demands node) (resolve defs seen node) (served defs seen node) := by
  have both : (∀ seen node, Serves defs seen (demands node) (resolve defs seen node)
        (served defs seen node)) ∧
      (∀ seen required properties, Serves defs seen (demandsOf properties)
        (resolveMembers defs seen required properties)
        fun _ => TypeExpr.ofMembers (seen ++ Entries.keys defs) required properties) := by
    refine resolve.mutual_induct defs _ _ ?unknown ?primitive ?bare ?array ?unlisted
      ?enumeration ?object ?closed ?dangling ?reference ?nil ?cons
    case unknown | primitive | bare =>
      intros
      rw [resolve]
      exact .pure
    case array =>
      intro seen declared format description items ih
      rw [resolve, bind_pure_comp]
      exact (ih.map _).congr fun q => by
        rw [served, served, TypeExpr.ofNode]
        cases TypeExpr.ofNode (seen ++ Entries.keys defs) items <;> rfl
    case unlisted =>
      -- an enumeration without values demands the texts of none
      intros
      rw [resolve]
      exact fun p => ⟨[], .ok (), p, .printed rfl .done, rfl⟩
    case enumeration =>
      intro seen declared format description values hne
      rw [resolve, bind_pure_comp, mapM_lift]
      · exact (Serves.literals.map _).congr fun q => by
          rw [served, TypeExpr.ofNode]
          · cases values.mapM Literal.ofData <;> rfl
          · exact hne
      · exact hne
    case object =>
      intro seen declared format description properties required ih
      rw [resolve, bind_pure_comp]
      exact (ih.map _).congr fun q => by
        rw [served, TypeExpr.ofNode]
        cases TypeExpr.ofMembers (seen ++ Entries.keys defs) required properties <;> rfl
    case closed =>
      intro seen target description hseen
      exact .closed (List.contains_iff_mem.mp hseen)
    case dangling =>
      intro seen target description hseen hdef
      exact .dangling (fun h => hseen (List.contains_iff_mem.mpr h)) hdef
    case reference =>
      intro seen target description hseen definition hdef ih
      exact .reference (fun h => hseen (List.contains_iff_mem.mpr h)) hdef ih
    case nil =>
      intros
      rw [resolveMembers]
      exact .pure
    case cons =>
      -- a property and then the others: the type of the first is all that is kept of it
      intro seen required name property rest ih ihrest
      have hsteps : resolveMembers defs seen required ((name, property) :: rest) =
          Resolution.type <$> resolve defs seen property >>= fun t =>
            (fun ts => (⟨name, required.contains name⟩, t) :: ts) <$>
              resolveMembers defs seen required rest := by
        rw [resolveMembers, bind_map_left]
        simp only [bind_pure_comp]
      have htype := (ih.map Resolution.type).congr fun q => served_type
      rw [hsteps, demandsOf]
      refine (htype.bind (fun p made q walk => walk.typed) fun t => ihrest.map _).congr fun q => ?_
      rw [TypeExpr.ofMembers]
      simp only [bind_pure_comp]
  exact both.1 seen node

/-! ## Declarations -/

/-- The properties of an interface are served like those of an object, if
their comments can be written. -/
theorem resolveProperties_walk {required : List String} {properties : List (String × Schema)}
    {ms : List Member}
    (h : (resolveProperties defs seen required properties).result p = (.ok ms, q)) :
    ∃ made, Walk defs seen (demandsOf properties) p made (.ok ()) q := by
  induction properties generalizing p ms with
  | nil =>
    cases h
    exact ⟨[], .done⟩
  | cons e rest ih =>
    obtain ⟨name, property⟩ := e
    rw [resolveProperties] at h
    obtain ⟨comment, p₁, hcomment, h⟩ := of_result_bind_ok h
    obtain ⟨t, p₂, ht, h⟩ := of_result_bind_ok h
    obtain ⟨ts, p₃, hts, h⟩ := of_result_bind_ok h
    cases h
    rw [result_lift] at hcomment
    obtain ⟨-, rfl⟩ := Prod.mk.inj hcomment
    obtain ⟨⟨made, walk⟩, -⟩ := resolve_serves.walk ht
    obtain ⟨later, onward⟩ := ih hts
    exact ⟨made ++ later, walk.append onward⟩

/-- Declaring a definition serves the demands of its node; the definition
itself is not followed. -/
theorem declare_walk {name : String} {d : Declaration}
    (h : (declare defs name node).result p = (.ok d, q)) :
    ∃ made, Walk defs [name] (demands node) p made (.ok ()) q := by
  rcases object_or_not node with ⟨t, f, d, ps, rs, rfl⟩ | hnot
  · rw [declare_eq_with, declareWith_object, ← resolveProperties_eq_mapM] at h
    obtain ⟨ms, p₁, hms, h⟩ := of_result_bind_ok h
    rw [result_lift] at h
    obtain ⟨-, rfl⟩ := Prod.mk.inj h
    exact resolveProperties_walk hms
  · rw [declare_eq_with, declareWith_alias hnot] at h
    obtain ⟨r, p₁, hr, h⟩ := of_result_bind_ok h
    rw [result_lift] at h
    obtain ⟨-, rfl⟩ := Prod.mk.inj h
    exact (resolve_serves.walk hr).1

/-- The message that the canonical name of a declaration is taken, if it is. -/
def collisions (table : List (String × Declared)) (name : String) (d : Declaration) :
    List String :=
  match table.lookup d.name with
  | some earlier => [collisionMessage earlier.source name d.name]
  | none => []

/-- Adding a declaration to a table makes it, reports whether its name is
taken and writes it. -/
theorem declareInto_eq {table : List (String × Declared)} {name : String} :
    declareInto defs table name node = declare defs name node >>= fun d =>
      (collisions table name d).forM (warn .types) >>= fun _ =>
        pure (Entries.put d.name ⟨name, d⟩ table) := by
  rw [declareInto]
  refine bind_congr fun d => ?_
  rw [collisions]
  cases table.lookup d.name <;> simp

/-- The pass with warnings about taken names. -/
def Pass.collided (p : Pass) (messages : List String) : Pass :=
  { p with log := p.log ++ messages.map (⟨.warning, .types, ·⟩) }

/-- What is declared, as the entry that is written for it. -/
def Declared.entry (d : Declared) : String × Declared :=
  (d.declaration.name, d)

/-- Declaring definitions one after the other into a table: each is declared,
reported if its canonical name is taken, and written. The list is what is
declared, in order. -/
inductive Course (defs : Definitions) :
    Definitions → List (String × Declared) → Pass → List Declared → Pass → Prop where
  | done {table : List (String × Declared)} {p : Pass} : Course defs [] table p [] p
  | next {name : String} {node : Schema} {rest : Definitions} {table : List (String × Declared)}
      {p inner q : Pass} {d : Declaration} {ds : List Declared}
      (h : (declare defs name node).result p = (.ok d, inner))
      (onward : Course defs rest (Entries.put d.name ⟨name, d⟩ table)
        (inner.collided (collisions table name d)) ds q) :
      Course defs ((name, node) :: rest) table p (⟨name, d⟩ :: ds) q

/-- **Declaring definitions takes its course**, and leaves the table with
what was declared written in order. -/
theorem exists_course {rest : Definitions} {before table : List (String × Declared)}
    (h : (rest.foldlM (fun table d => declareInto defs table d.1 d.2) before).result p =
      (.ok table, q)) :
    ∃ ds, Course defs rest before p ds q ∧ table = Entries.merge before (ds.map Declared.entry) := by
  induction rest generalizing before p with
  | nil =>
    cases h
    exact ⟨[], .done, rfl⟩
  | cons e rest ih =>
    obtain ⟨name, node⟩ := e
    rw [List.foldlM_cons] at h
    obtain ⟨next, p₁, hstep, h⟩ := of_result_bind_ok h
    -- a declaration, a warning if its name is taken, and the write to the table
    rw [declareInto_eq] at hstep
    obtain ⟨d, p₂, hd, hstep⟩ := of_result_bind_ok hstep
    rw [result_bind_of_ok result_forM_warn] at hstep
    cases hstep
    obtain ⟨ds, onward, rfl⟩ := ih h
    exact ⟨⟨name, d⟩ :: ds, .next hd onward, rfl⟩

/-- Declaring definitions one after the other, from a table to the next: a
walk for each definition, which itself counts as being expanded, and then
the warning if its canonical name is taken. -/
inductive Sweep (defs : Definitions) :
    Definitions → Pass → List (String × Resolution) → Pass → Prop where
  | done {p : Pass} : Sweep defs [] p [] p
  | next {name : String} {node : Schema} {rest : Definitions} {p inner q : Pass}
      {made later : List (String × Resolution)} {table : List (String × Declared)}
      {d : Declaration} (walk : Walk defs [name] (demands node) p made (.ok ()) inner)
      (onward : Sweep defs rest (inner.collided (collisions table name d)) later q) :
      Sweep defs ((name, node) :: rest) p (made ++ later) q

/-- Such a course is a sweep. -/
theorem Course.sweep {rest : Definitions} {table : List (String × Declared)} {ds : List Declared}
    (h : Course defs rest table p ds q) : ∃ made, Sweep defs rest p made q := by
  induction h with
  | done => exact ⟨[], .done⟩
  | next hd _ ih =>
    obtain ⟨made, walk⟩ := declare_walk hd
    obtain ⟨later, onward⟩ := ih
    exact ⟨made ++ later, .next walk onward⟩

/-- **Declaring all definitions is a sweep over them.** -/
theorem declareAll_sweep {table : List (String × Declared)}
    (h : (declareAll defs).result p = (.ok table, q)) : ∃ made, Sweep defs defs p made q := by
  obtain ⟨ds, course, -⟩ := exists_course h
  exact course.sweep

/-! ## What a step does to a pass, whatever its outcome -/

/-- The step takes every pass to one that `R` relates to it. -/
def Moves {α : Type} (R : Pass → Pass → Prop) (x : Resolving α) : Prop :=
  ∀ p, R p (x.result p).2

namespace Moves

variable {α β ι : Type} {R : Pass → Pass → Prop} [IsPreorder Pass R] {x : Resolving α}

theorem pure {a : α} : Moves R (pure a) :=
  fun p => refl_of R p

theorem lift {o : Except Failure α} : Moves R (liftM o) := by
  intro p
  rw [result_lift]
  exact refl_of R p

/-- Behind a step that fails nothing more is done. -/
theorem bind {f : α → Resolving β} (h : Moves R x) (hf : ∀ a, Moves R (f a)) :
    Moves R (x >>= f) := by
  intro p
  have hfirst := h p
  rcases hx : x.result p with ⟨e | a, q⟩
  · rw [hx] at hfirst
    rw [result_bind_of_error hx]
    exact hfirst
  · rw [hx] at hfirst
    rw [result_bind_of_ok hx]
    exact trans_of R hfirst (hf a q)

theorem mapM {f : ι → Resolving α} {is : List ι} (h : ∀ i ∈ is, Moves R (f i)) :
    Moves R (is.mapM f) := by
  induction is with
  | nil => exact .pure
  | cons i rest ih =>
    rw [List.mapM_cons]
    refine (h i List.mem_cons_self).bind fun a => ?_
    exact (ih fun j hj => h j (List.mem_cons_of_mem i hj)).bind fun as => .pure

theorem foldlM {f : α → ι → Resolving α} {is : List ι} {init : α}
    (h : ∀ i ∈ is, ∀ a, Moves R (f a i)) : Moves R (is.foldlM f init) := by
  induction is generalizing init with
  | nil => exact .pure
  | cons i rest ih =>
    rw [List.foldlM_cons]
    exact (h i List.mem_cons_self init).bind fun a =>
      ih fun j hj => h j (List.mem_cons_of_mem i hj)

end Moves

section

variable {R : Pass → Pass → Prop} [IsPreorder Pass R] {defs : Definitions} {name : String}
  {node : Schema}

/-- Declaring a definition does what resolving the nodes in its tree does. -/
theorem declare_moves (h : ∀ s, Schema.Within s node → Moves R (resolve defs [name] s)) :
    Moves R (declare defs name node) := by
  rcases object_or_not node with ⟨t, f, d, ps, rs, rfl⟩ | hnot
  · rw [declare_eq_with, declareWith_object]
    refine (Moves.mapM fun e he => ?_).bind fun ms => .lift
    refine Moves.lift.bind fun comment => ?_
    exact (h e.2 (.property he .self)).bind fun r => .pure
  · rw [declare_eq_with, declareWith_alias hnot]
    exact (h node .self).bind fun r => .lift

end

end TypeScript

end ApiMock
