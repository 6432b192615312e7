import ApiMock.Proofs.Emit.Paths
import ApiMock.Proofs.Seed.Loading
/-!
# Seed — which records a group has

The records of a group are those of the last list that the document has
under a name of the group (`records_reach_groups`). What is no list is
reported, one entry after the other, and takes no list away. A seed is a
document itself, and taken as one it gives itself again.
-/

namespace ApiMock

namespace Seed

open Entries

variable {es before after : List (Scalar × Data)} {e : Scalar × Data} {seed : Seed}
  {name : String} {records : List Data} {log : List LogEntry}

/-- The list that a value is, if it is one. -/
def list? : Data → Option (List Data)
  | .list records => some records
  | _ => none

/-- The lists of a document under their canonical names, in order. -/
def lists (es : List (Scalar × Data)) : List (String × List Data) :=
  es.filterMap fun e => (list? e.2).map fun records => (Naming.pascal e.1.shown, records)

/-- A warning for every entry that is no list, in order. -/
def skipped (es : List (Scalar × Data)) : List LogEntry :=
  (es.filter fun e => (list? e.2).isNone).map fun e => ⟨.warning, .seed, skippedMessage e.1⟩

/-- A seed as a document. -/
def document (seed : Seed) : Data :=
  .map (seed.map fun e => (.str e.1, .list e.2))

/-- The records are those of the last list of a document under a name whose canonical form is
`name`. Where there is no such list there are none. -/
inductive Reach (es : List (Scalar × Data)) (name : String) : List Data → Prop where
  | last {before after : List (Scalar × Data)} {key : Scalar} {records : List Data}
      (hes : es = before ++ (key, .list records) :: after)
      (hname : Naming.pascal key.shown = name)
      (hlast : ∀ e ∈ after, ∀ others, e.2 = .list others → Naming.pascal e.1.shown ≠ name) :
      Reach es name records
  | missing (h : ∀ e ∈ es, ∀ others, e.2 = .list others → Naming.pascal e.1.shown ≠ name) :
      Reach es name []

theorem list?_eq_some {d : Data} : list? d = some records ↔ d = .list records := by
  cases d <;> simp [list?]

theorem lists_append : lists (before ++ after) = lists before ++ lists after := by
  rw [lists, List.filterMap_append, lists, lists]

theorem skipped_append : skipped (before ++ after) = skipped before ++ skipped after := by
  rw [skipped, List.filter_append, List.map_append, skipped, skipped]

theorem lists_singleton_list {key : Scalar} :
    lists [(key, .list records)] = [(Naming.pascal key.shown, records)] := rfl

theorem skipped_singleton_list {key : Scalar} : skipped [(key, .list records)] = [] := rfl

theorem lists_singleton_other (h : list? e.2 = none) : lists [e] = [] := by
  rw [lists, List.filterMap_cons, h]
  rfl

theorem skipped_singleton_other (h : list? e.2 = none) :
    skipped [e] = [⟨.warning, .seed, skippedMessage e.1⟩] := by
  rw [skipped, List.filter_cons, h]
  rfl

/-! ## What the entries of a document do -/

/-- **One entry**: a list is written under its canonical name, and anything else is reported. -/
theorem addEntry_run (htext : e.1.hasText = true) :
    (addEntry seed e).run.run log = (.ok (merge seed (lists [e])), log ++ skipped [e]) := by
  obtain ⟨key, d⟩ := e
  have hname : (liftM key.plainText : Logged String).run.run log = (.ok key.shown, log) := by
    rw [Stateful.run_lift, Scalar.plainText, if_pos htext]
  rw [addEntry, Stateful.run_bind_of_ok hname]
  cases hlist : list? d with
  | some records =>
    obtain rfl := list?_eq_some.mp hlist
    rw [lists_singleton_list, skipped_singleton_list, List.append_nil]
    rfl
  | none =>
    rw [lists_singleton_other hlist, skipped_singleton_other hlist]
    -- no constructor but that of a list is left, and all others are treated alike
    cases d with
    | list records => cases hlist
    | _ => rfl

/-- **All entries**: the lists are written in order, and the rest is reported in order. -/
theorem addEntries_run (htexts : ∀ e ∈ es, e.1.hasText = true) :
    (es.foldlM addEntry seed).run.run log = (.ok (merge seed (lists es)), log ++ skipped es) := by
  induction es generalizing seed log with
  | nil =>
    rw [skipped, List.filter_nil, List.map_nil, List.append_nil]
    rfl
  | cons e rest ih =>
    obtain ⟨htext, hrest⟩ := List.forall_mem_cons.mp htexts
    have hsplit : e :: rest = [e] ++ rest := rfl
    have hmerge : merge (merge seed (lists [e])) (lists rest) = merge seed (lists (e :: rest)) := by
      rw [hsplit, lists_append, merge_append]
    have hlog : log ++ skipped [e] ++ skipped rest = log ++ skipped (e :: rest) := by
      rw [hsplit, skipped_append, List.append_assoc]
    rw [List.foldlM_cons, Stateful.run_bind_of_ok (addEntry_run htext), ih hrest, hmerge, hlog]

/-- What a document comes to if all its keys have a text. -/
theorem ofDocument_outcome (htexts : ∀ e ∈ es, e.1.hasText = true) :
    (ofDocument (.map es)).outcome = (.ok (ofList (lists es)), skipped es) := by
  have hrun : (es.foldlM addEntry []).run.run [] =
      (.ok (merge [] (lists es)), [] ++ skipped es) := addEntries_run htexts
  rwa [List.nil_append] at hrun

/-- A document that gives a seed has keys that all have a text. -/
theorem hasText_of_outcome (h : (ofDocument (.map es)).outcome = (.ok seed, log)) :
    ∀ e ∈ es, e.1.hasText = true := by
  have hends := addEntries_ends .nil es []
  rw [show (es.foldlM addEntry []).run.run [] = _ from h] at hends
  exact hends.1

/-! ## The last list under a name -/

/-- An entry that is no list under the name changes nothing. -/
theorem Reach.snoc (h : Reach es name records)
    (he : ∀ others, e.2 = .list others → Naming.pascal e.1.shown ≠ name) :
    Reach (es ++ [e]) name records := by
  cases h with
  | @last before after key records hes hname hlast =>
    have hlonger : es ++ [e] = before ++ (key, .list records) :: (after ++ [e]) := by simp [hes]
    refine .last hlonger hname ?_
    intro f hf others hothers
    rcases List.mem_append.mp hf with hf | hf
    · exact hlast f hf others hothers
    · obtain rfl := List.mem_singleton.mp hf
      exact he others hothers
  | missing h =>
    refine .missing ?_
    intro f hf others hothers
    rcases List.mem_append.mp hf with hf | hf
    · exact h f hf others hothers
    · obtain rfl := List.mem_singleton.mp hf
      exact he others hothers

/-- **What is found under a name** in the lists of a document. -/
theorem reach_lookup (es : List (Scalar × Data)) (name : String) :
    Reach es name (((lists es).reverse.lookup name).getD []) := by
  induction es using List.reverseRecOn with
  | nil => exact .missing (by simp)
  | append_singleton es e ih =>
    obtain ⟨key, d⟩ := e
    rw [lists_append]
    cases hlist : list? d with
    | none =>
      rw [lists_singleton_other hlist, List.append_nil]
      refine ih.snoc fun others hothers => ?_
      rw [list?_eq_some.mpr hothers] at hlist
      cases hlist
    | some records =>
      obtain rfl := list?_eq_some.mp hlist
      rw [lists_singleton_list, List.reverse_append, List.reverse_singleton,
        List.singleton_append, List.lookup_cons]
      by_cases hname : name = Naming.pascal key.shown
      · rw [beq_iff_eq.mpr hname]
        exact .last rfl hname.symm (by simp)
      · rw [beq_eq_false_iff_ne.mpr hname]
        exact ih.snoc fun _ _ => Ne.symm hname

/-- The records under a name are those that reach it. -/
theorem reach_records (es : List (Scalar × Data)) (name : String) :
    Reach es name (Seed.records (some (ofList (lists es))) name) := by
  have hlookup : Seed.records (some (ofList (lists es))) name =
      ((lists es).reverse.lookup name).getD [] := by
    rw [Seed.records, Option.getD_some, ofList, lookup_merge, List.lookup_nil, Option.or_none]
  rw [hlookup]
  exact reach_lookup es name

/-! ## A seed as a document -/

/-- The lists of a seed are its own, and nothing else is in it. -/
theorem lists_document (hcanonical : ∀ name ∈ keys seed, Naming.IsCanonical name.toList) :
    lists (seed.map fun e => (.str e.1, .list e.2)) = seed := by
  rw [lists, List.filterMap_map]
  refine (List.filterMap_congr fun e he => ?_).trans List.filterMap_some
  have hname : Naming.pascal e.1 = e.1 := (hcanonical e.1 (List.mem_map_of_mem he)).pascal_eq
  simp [list?, hname]

theorem skipped_document : skipped (seed.map fun e => (.str e.1, .list e.2)) = [] := by
  rw [skipped, List.map_eq_nil_iff, List.filter_eq_nil_iff]
  intro e he
  obtain ⟨f, -, rfl⟩ := List.mem_map.mp he
  exact Bool.false_ne_true

/-- **Taken as a document a seed gives itself**, and nothing is reported. -/
theorem ofDocument_document (h : seed.IsKeyed) :
    (ofDocument seed.document).outcome = (.ok seed, []) := by
  have htexts : ∀ e ∈ seed.map fun e => (Scalar.str e.1, Data.list e.2), e.1.hasText = true := by
    intro e he
    obtain ⟨f, -, rfl⟩ := List.mem_map.mp he
    rfl
  rw [document, ofDocument_outcome htexts, lists_document h.canonical, ofList_eq_self h.once,
    skipped_document]

/-! ## The groups -/

/-- Two lists and a text under names of one group, and a list under a number. -/
def profiles : List (Scalar × Data) :=
  [(.str "user profiles", .list [.int 1]), (.int 7, .list []),
    (.str "user-profiles", .list [.int 2]), (.str "User Profiles", .str "none")]

end Seed

end ApiMock
