import ApiMock.Proofs.Text.Quoted
import ApiMock.Proofs.TypeScript.Serve
import ApiMock.Proofs.TypeScript.Reach
import ApiMock.Proofs.TypeScript.Yields
/-!
# TypeScript — what a pass reports

A pass reports references that lead to no definition, and canonical names
that are taken. The message of a report tells which of the two it is and
shows the names between quotes, so two reports with one message show the
same names (`Report.sameNames_of_entry_eq`).

A reference leads nowhere whether the pass has expanded anything or not, and
no definition of that name is ever being expanded. So neither the memo nor
a cycle keeps such a report back: each node that is resolved reports every
reference of its own that dangles.
-/

namespace ApiMock

namespace TypeScript

open Entries Resolving

/-- What a pass reports. -/
inductive Report where
  /-- A reference leads to no definition. -/
  | dangling (target : String)
  /-- The later definition takes the canonical name, `type`, of the earlier one. -/
  | taken (earlier later type : String)
  deriving DecidableEq

namespace Report

/-- The message of a report. -/
def message : Report → String
  | dangling target => danglingMessage target
  | taken earlier later type => collisionMessage earlier later type

/-- The report in the log. -/
def entry (r : Report) : LogEntry := ⟨.warning, .types, r.message⟩

/-- The names that a report shows. -/
def names : Report → List String
  | dangling target => [target]
  | taken earlier later _ => [earlier, later]

/-- The report is about a name that is taken. -/
def isTaken : Report → Bool
  | dangling _ => false
  | taken _ _ _ => true

end Report

/-- The entry of the log starts like the message about a name that is taken. -/
def tellsTaken (e : LogEntry) : Bool :=
  e.message.toList.take 8 = "Schemas ".toList

namespace Report

theorem toList_dangling {target : String} : (dangling target).message.toList =
    "Unresolvable reference to ".toList ++
      ((Text.quoted target).toList ++ ", using any".toList) := by
  have hparts : danglingMessage target =
      "Unresolvable reference to " ++ Text.quoted target ++ ", using any" := rfl
  rw [message, hparts, String.toList_append, String.toList_append, List.append_assoc]

/-- The message about a name that is taken shows both names, and the later
one again at its end. -/
theorem toList_taken {earlier later type : String} : (taken earlier later type).message.toList =
    "Schemas ".toList ++ ((Text.quoted earlier).toList ++ (" and ".toList ++
      ((Text.quoted later).toList ++ (" both emit type ".toList ++ (type.toList ++
        ("; ".toList ++ ("keeping ".toList ++ (Text.quoted later).toList))))))) := by
  rw [message, collisionMessage]
  simp only [toString, String.toList_append, List.append_assoc]

/-- The start of a message tells the kind of the report. -/
theorem tellsTaken_entry (r : Report) : tellsTaken r.entry = r.isTaken := by
  cases r with
  | dangling target =>
    rw [tellsTaken, entry, toList_dangling]
    rfl
  | taken earlier later type =>
    rw [tellsTaken, entry, toList_taken]
    rfl

/-- **Two reports with one message are of one kind and show the same names.** -/
theorem sameNames_of_entry_eq {r r' : Report} (h : r.entry = r'.entry) :
    r.isTaken = r'.isTaken ∧ List.Forall₂ Text.SamePoints r.names r'.names := by
  have hkind : r.isTaken = r'.isTaken := by
    rw [← tellsTaken_entry, h, tellsTaken_entry]
  have hmessage : r.message.toList = r'.message.toList :=
    congrArg (fun e => e.message.toList) h
  refine ⟨hkind, ?_⟩
  cases r with
  | dangling target =>
    cases r' with
    | dangling target' =>
      rw [toList_dangling, toList_dangling] at hmessage
      have hquoted := List.append_cancel_left hmessage
      exact .cons (Text.quoted_append_inj hquoted).1 .nil
    | taken earlier later type => cases hkind
  | taken earlier later type =>
    cases r' with
    | dangling target => cases hkind
    | taken earlier' later' type' =>
      rw [toList_taken, toList_taken] at hmessage
      obtain ⟨hearlier, hrest⟩ := Text.quoted_append_inj (List.append_cancel_left hmessage)
      obtain ⟨hlater, -⟩ := Text.quoted_append_inj (List.append_cancel_left hrest)
      exact .cons hearlier (.cons hlater .nil)

/-- A reference in the log was reported under a name of its code points. -/
theorem exists_dangling_of_mem {rs : List Report} {target : String}
    (h : (dangling target).entry ∈ rs.map entry) :
    ∃ name, Text.SamePoints name target ∧ .dangling name ∈ rs := by
  obtain ⟨r, hr, hentry⟩ := List.mem_map.mp h
  obtain ⟨hkind, hnames⟩ := sameNames_of_entry_eq hentry
  cases r with
  | dangling name =>
    obtain ⟨hname, -⟩ := List.forall₂_cons.mp hnames
    exact ⟨name, hname, hr⟩
  | taken earlier later type => cases hkind

/-- Names of the same code points are reported alike. -/
theorem dangling_entry_eq {name target : String} (h : Text.SamePoints name target) :
    (dangling name).entry = (dangling target).entry := by
  have hmessage : danglingMessage name = danglingMessage target := by
    unfold danglingMessage
    rw [h.quoted_eq]
  exact congrArg (fun m => (⟨.warning, .types, m⟩ : LogEntry)) hmessage

end Report

/-! ## Dangling references -/

/-- A reference that leads to no definition stands in a definition. -/
def Dangling (defs : Definitions) (target : String) : Prop :=
  target ∉ keys defs ∧ ∃ d ∈ defs, d.2.Mentions target

/-- From `p` to `q` the reports `rs` were added to the log. -/
def Told (rs : List Report) (p q : Pass) : Prop :=
  q.log = p.log ++ rs.map Report.entry

theorem Told.trans {rs rs' : List Report} {p q r : Pass} (h : Told rs p q) (h' : Told rs' q r) :
    Told (rs ++ rs') p r := by
  rw [Told, h', h, List.map_append, List.append_assoc]

variable {defs : Definitions} {seen : List String} {ds : List Demand} {node : Schema}
  {made : List (String × Resolution)} {p q : Pass} {o : Except Failure Unit} {name : String}

/-- The targets that a walk reports: they are no definitions, are asked for
or stand in a definition, and if the walk succeeds, none that is asked for
is left out. -/
structure Reported (defs : Definitions) (seen : List String) (ds : List Demand)
    (o : Except Failure Unit) (targets : List String) : Prop where
  undefined : ∀ t ∈ targets, t ∉ keys defs
  mentioned : ∀ t ∈ targets, .follow t ∈ ds ∨ ∃ d ∈ defs, d.2.Mentions t
  complete : o = .ok () → ∀ t, .follow t ∈ ds → t ∉ seen → t ∉ keys defs → t ∈ targets

/-- A demand that needs no report may come in front. -/
theorem Reported.cons {d : Demand} {targets : List String} (h : Reported defs seen ds o targets)
    (hd : ∀ t, d = .follow t → t ∈ seen ∨ t ∈ keys defs) :
    Reported defs seen (d :: ds) o targets where
  undefined := h.undefined
  mentioned := fun t ht => (h.mentioned t ht).imp (List.mem_cons_of_mem d) id
  complete := by
    intro ho t ht hseen hnot
    rcases List.mem_cons.mp ht with heq | ht
    · exact absurd (hd t heq.symm) (by rw [not_or]; exact ⟨hseen, hnot⟩)
    · exact h.complete ho t ht hseen hnot

/-- What is reported below a definition stands in it or in another one. -/
theorem Reported.below {target : String} {definition : Schema} {targets : List String}
    (h : Reported defs seen (demands definition) o targets)
    (hdef : defs.lookup target = some definition) :
    ∀ t ∈ targets, ∃ d ∈ defs, d.2.Mentions t := by
  intro t ht
  rcases h.mentioned t ht with hasked | hmentioned
  · exact ⟨(target, definition), mem_of_lookup hdef, follow_mem_demands.mp hasked⟩
  · exact hmentioned

/-- **A walk reports what dangles and nothing else.** A walk that succeeds
leaves out no reference of its own, whatever is kept and whatever is being
expanded. -/
theorem Walk.told (h : Walk defs seen ds p made o q) :
    ∃ targets : List String, Told (targets.map .dangling) p q ∧
      Reported defs seen ds o targets := by
  induction h with
  | done =>
    refine ⟨[], by simp [Told], by simp, by simp, ?_⟩
    exact fun _ t ht => absurd ht List.not_mem_nil
  | printed _ _ ih =>
    obtain ⟨targets, htold, hreported⟩ := ih
    exact ⟨targets, htold, hreported.cons fun t ht => nomatch ht⟩
  | unprintable => exact ⟨[], by simp [Told], by simp, by simp, nofun⟩
  | closed hseen _ ih =>
    obtain ⟨targets, htold, hreported⟩ := ih
    refine ⟨targets, htold, hreported.cons fun t ht => ?_⟩
    cases ht
    exact .inl hseen
  | @dangling seen target rest p q made o _ hdef _ ih =>
    -- the report comes first: there is nothing to keep it back
    obtain ⟨targets, htold, hreported⟩ := ih
    have hfirst : Told [.dangling target] p (p.dangled target) := rfl
    have hundefined : target ∉ keys defs := lookup_eq_none_iff.mp hdef
    refine ⟨target :: targets, hfirst.trans htold, ?_, ?_, fun ho t ht hseen hnot => ?_⟩
    · exact List.forall_mem_cons.mpr ⟨hundefined, hreported.undefined⟩
    · refine List.forall_mem_cons.mpr ⟨.inl List.mem_cons_self, fun t ht => ?_⟩
      exact (hreported.mentioned t ht).imp (List.mem_cons_of_mem _) id
    · rcases List.mem_cons.mp ht with heq | ht
      · cases heq
        exact List.mem_cons_self
      · exact List.mem_cons_of_mem _ (hreported.complete ho t ht hseen hnot)
  | known _ hdef _ _ ih =>
    obtain ⟨targets, htold, hreported⟩ := ih
    refine ⟨targets, htold, hreported.cons fun t ht => ?_⟩
    cases ht
    exact .inr (exists_lookup_iff.mp ⟨_, hdef⟩)
  | @expanded seen target definition r rest p inner q made later o _ hdef _ _ _ _ ih ihonward =>
    obtain ⟨first, hfirst, hbelow⟩ := ih
    obtain ⟨targets, htold, hreported⟩ := ihonward
    have hdefined : target ∈ keys defs := exists_lookup_iff.mp ⟨definition, hdef⟩
    -- storing the expansion leaves the log as it is
    have hstored : Told (first.map .dangling) p (inner.stored target r) := hfirst
    refine ⟨first ++ targets, ?_, ?_, ?_, fun ho t ht hseen hnot => ?_⟩
    · rw [List.map_append]
      exact hstored.trans htold
    · exact List.forall_mem_append.mpr ⟨hbelow.undefined, hreported.undefined⟩
    · refine List.forall_mem_append.mpr ⟨fun t ht => .inr (hbelow.below hdef t ht), ?_⟩
      exact fun t ht => (hreported.mentioned t ht).imp (List.mem_cons_of_mem _) id
    · rcases List.mem_cons.mp ht with heq | ht
      · cases heq
        exact absurd hdefined hnot
      · exact List.mem_append_right _ (hreported.complete ho t ht hseen hnot)
  | failed _ hdef _ _ ih =>
    obtain ⟨targets, htold, hbelow⟩ := ih
    exact ⟨targets, htold, hbelow.undefined, fun t ht => .inr (hbelow.below hdef t ht), nofun⟩

/-! ## Declarations -/

/-- The reports from `p` to `q` are about references that dangle, or about
names that are taken. -/
def Tells (defs : Definitions) (p q : Pass) : Prop :=
  ∃ rs, Told rs p q ∧ ∀ t, .dangling t ∈ rs → Dangling defs t

instance : IsPreorder Pass (Tells defs) where
  refl p := ⟨[], by simp [Told], by simp⟩
  trans p q r := by
    rintro ⟨rs, htold, hrs⟩ ⟨rs', htold', hrs'⟩
    refine ⟨rs ++ rs', htold.trans htold', fun t ht => ?_⟩
    exact (List.mem_append.mp ht).elim (hrs t) (hrs' t)

/-- What a walk for a definition reports is told of dangling references only. -/
theorem Reported.dangling {targets : List String} (h : Reported defs seen (demands node) o targets)
    (hnode : ∃ d ∈ defs, ∀ t, node.Mentions t → d.2.Mentions t) :
    ∀ t ∈ targets, Dangling defs t := by
  intro t ht
  obtain ⟨d, hd, hmentions⟩ := hnode
  refine ⟨h.undefined t ht, ?_⟩
  rcases h.mentioned t ht with hasked | hmentioned
  · exact ⟨d, hd, hmentions t (follow_mem_demands.mp hasked)⟩
  · exact hmentioned

/-- **Declaring a definition reports nothing but what dangles**, also if it
fails. -/
theorem declare_tells (hin : (name, node) ∈ defs) : Moves (Tells defs) (declare defs name node) := by
  refine declare_moves fun s hs p => ?_
  obtain ⟨made, o, q, walk, hresult⟩ := @resolve_serves defs [name] s p
  obtain ⟨targets, htold, hreported⟩ := walk.told
  rw [hresult]
  refine ⟨targets.map .dangling, htold, fun t ht => ?_⟩
  obtain ⟨t', ht', heq⟩ := List.mem_map.mp ht
  cases heq
  exact hreported.dangling ⟨_, hin, fun t => hs.has⟩ t ht'

/-- The report that a name is taken, if it is. -/
def takes (table : List (String × Declared)) (d : Declared) : List Report :=
  ((table.lookup d.declaration.name).map fun earlier =>
    .taken earlier.source d.source d.declaration.name).toList

/-- The reports of names that are taken, from a table on. -/
def takenFrom (table : List (String × Declared)) : List Declared → List Report
  | [] => []
  | d :: rest => takes table d ++ takenFrom (put d.declaration.name d table) rest

/-- The warnings about a declaration are those reports. -/
theorem told_collided {table : List (String × Declared)} {d : Declaration} :
    Told (takes table ⟨name, d⟩) p (p.collided (collisions table name d)) := by
  rw [Told, Pass.collided, takes, collisions]
  cases table.lookup d.name <;> rfl

/-- None of them is about a reference. -/
theorem dangling_notMem_takes {table : List (String × Declared)} {d : Declared} {t : String} :
    .dangling t ∉ takes table d := by
  intro ht
  rw [takes, Option.mem_toList, Option.map_eq_some_iff] at ht
  obtain ⟨earlier, -, heq⟩ := ht
  cases heq

/-- **Declaring definitions reports no reference but those that dangle**, also
if it fails. -/
theorem declaring_tells {rest : Definitions} (table : List (String × Declared))
    (hin : ∀ d ∈ rest, d ∈ defs) :
    Moves (Tells defs) (rest.foldlM (fun table d => declareInto defs table d.1 d.2) table) := by
  refine .foldlM fun d hd table => ?_
  rw [declareInto_eq]
  refine (declare_tells (hin d hd)).bind fun declaration => ?_
  refine Moves.bind (fun p => ?_) fun _ => .pure
  rw [result_forM_warn]
  exact ⟨takes table ⟨d.1, declaration⟩, told_collided, fun t ht =>
    absurd ht dangling_notMem_takes⟩

/-- **What a course reports.** Each reference of its definitions that dangles
is reported, only references that dangle are, and a name is reported whenever
it is taken. -/
theorem Course.told {rest : Definitions} {table : List (String × Declared)} {ds : List Declared}
    (h : Course defs rest table p ds q) (hin : ∀ e ∈ rest, e ∈ defs) :
    ∃ rs, Told rs p q ∧ (∀ t, .dangling t ∈ rs → Dangling defs t) ∧
      (∀ e ∈ rest, ∀ t, e.2.Mentions t → t ∉ keys defs → .dangling t ∈ rs) ∧
      rs.filter Report.isTaken = takenFrom table ds := by
  induction h with
  | done => exact ⟨[], by simp [Told], by simp, by simp, rfl⟩
  | @next name node rest table p inner q d ds hd onward ih =>
    have hmem : (name, node) ∈ defs := hin _ List.mem_cons_self
    have hname : name ∈ keys defs := List.mem_map_of_mem hmem
    -- the definition itself, the name if it is taken, and the others
    obtain ⟨made, walk⟩ := declare_walk hd
    obtain ⟨targets, htargets, hreported⟩ := walk.told
    have hdangling := hreported.dangling ⟨_, hmem, fun t => id⟩
    have htaken : Told (takes table ⟨name, d⟩) inner (inner.collided (collisions table name d)) :=
      told_collided
    obtain ⟨rs, hrs, hsound, hcomplete, hfilter⟩ := ih fun e he => hin e (List.mem_cons_of_mem _ he)
    refine ⟨targets.map .dangling ++ takes table ⟨name, d⟩ ++ rs, (htargets.trans htaken).trans hrs,
      fun t ht => ?_, fun e he t hmentions hundefined => ?_, ?_⟩
    · rcases List.mem_append.mp ht with ht | ht
      · rcases List.mem_append.mp ht with ht | ht
        · obtain ⟨t', ht', heq⟩ := List.mem_map.mp ht
          cases heq
          exact hdangling t ht'
        · exact absurd ht dangling_notMem_takes
      · exact hsound t ht
    · rcases List.mem_cons.mp he with rfl | he
      · -- its own name is a definition, so no reference of its own is passed over
        have hseen : t ∉ [name] := by
          rw [List.mem_singleton]
          rintro rfl
          exact hundefined hname
        have ht := hreported.complete rfl t (follow_mem_demands.mpr hmentions) hseen hundefined
        exact List.mem_append_left _ (List.mem_append_left _ (List.mem_map_of_mem ht))
      · exact List.mem_append_right _ (hcomplete e he t hmentions hundefined)
    · have hfirst : (targets.map Report.dangling).filter Report.isTaken = [] := by
        rw [List.filter_eq_nil_iff]
        intro r hr
        obtain ⟨t, -, rfl⟩ := List.mem_map.mp hr
        exact Bool.false_ne_true
      have hsecond : (takes table ⟨name, d⟩).filter Report.isTaken = takes table ⟨name, d⟩ := by
        rw [takes]
        cases table.lookup d.name <;> rfl
      rw [List.filter_append, List.filter_append, hfirst, hsecond, hfilter, List.nil_append]
      rfl

end TypeScript

end ApiMock
