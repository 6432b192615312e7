import ApiMock.Proofs.TypeScript.Reports
/-!
# TypeScript — canonical names that are taken

Definitions with one canonical name are declared one after the other, and
the last one is what the table has in the end. Each of them but the first
takes the name from the one before it, and that is reported once. So the
reports are as many as there are definitions more than entries, and the
definition that is named as the earlier one is the nearest before.

The table knows the earlier definition by what stands in it. That this is
the nearest definition of the canonical name is the invariant of the loop
(`Owners`).
-/

namespace ApiMock

namespace TypeScript

open Entries Resolving Sequence

variable {defs rest : Definitions} {table : List (String × Declared)} {ds : List Declared}
  {earlier names : List String} {node : Schema} {name a b : String} {p q : Pass}

/-! ## Consecutive names -/

/-- One name comes before the other, they have one canonical name, and none
in between has it. -/
def Consecutive (names : List String) (a b : String) : Prop :=
  ∃ before between after, names = before ++ a :: between ++ b :: after ∧
    Naming.pascal a = Naming.pascal b ∧ ∀ c ∈ between, Naming.pascal c ≠ Naming.pascal b

/-- The nearest name that has the canonical name; the names are listed
backwards. -/
def owner? (earlier : List String) (canonical : String) : Option String :=
  earlier.find? fun e => Naming.pascal e = canonical

/-- The names with an owner before them, behind their owners. The first
argument lists the names before backwards. -/
def takeoversAfter (earlier : List String) : List String → List (String × String)
  | [] => []
  | later :: rest =>
    ((owner? earlier (Naming.pascal later)).map (·, later)).toList ++
      takeoversAfter (later :: earlier) rest

/-- All of them. -/
def takeovers (names : List String) : List (String × String) := takeoversAfter [] names

theorem mem_takeoversAfter : (a, b) ∈ takeoversAfter earlier names ↔
    ∃ before after, names = before ++ b :: after ∧
      owner? (before.reverse ++ earlier) (Naming.pascal b) = some a := by
  induction names generalizing earlier with
  | nil => simp [takeoversAfter]
  | cons c rest ih =>
    rw [takeoversAfter, List.mem_append, ih, Option.mem_toList, Option.map_eq_some_iff]
    constructor
    · rintro (⟨e, howner, heq⟩ | ⟨before, after, rfl, howner⟩)
      · cases heq
        exact ⟨[], rest, rfl, howner⟩
      · refine ⟨c :: before, after, rfl, ?_⟩
        rwa [List.reverse_cons, List.append_assoc]
    · rintro ⟨before, after, hsplit, howner⟩
      cases before with
      | nil =>
        obtain ⟨rfl, rfl⟩ := List.cons.inj hsplit
        exact .inl ⟨a, howner, rfl⟩
      | cons d before =>
        obtain ⟨rfl, rfl⟩ := List.cons.inj hsplit
        rw [List.reverse_cons, List.append_assoc] at howner
        exact .inr ⟨before, after, rfl, howner⟩

/-- **A name takes over from the one it follows.** -/
theorem mem_takeovers_iff : (a, b) ∈ takeovers names ↔ Consecutive names a b := by
  rw [takeovers, mem_takeoversAfter]
  constructor
  · rintro ⟨before, after, rfl, howner⟩
    rw [owner?, List.append_nil, List.find?_eq_some_iff_append] at howner
    obtain ⟨hcanonical, nearer, farther, hbefore, hnearer⟩ := howner
    refine ⟨farther.reverse, nearer.reverse, after, ?_, by simpa using hcanonical, ?_⟩
    · have hforward := congrArg List.reverse hbefore
      rw [List.reverse_reverse] at hforward
      simp [hforward]
    · intro c hc
      simpa using hnearer c (List.mem_reverse.mp hc)
  · rintro ⟨before, between, after, rfl, hcanonical, hbetween⟩
    refine ⟨before ++ a :: between, after, rfl, ?_⟩
    rw [owner?, List.append_nil, List.find?_eq_some_iff_append]
    refine ⟨by simpa using hcanonical, between.reverse, before.reverse, ?_, ?_⟩
    · rw [List.reverse_append, List.reverse_cons, List.append_assoc]
      rfl
    · intro c hc
      simpa using hbetween c (List.mem_reverse.mp hc)

/-- The names that take over are among the names, in order. -/
theorem sublist_takeoversAfter :
    (takeoversAfter earlier names).map Prod.snd |>.Sublist names := by
  induction names generalizing earlier with
  | nil => exact .slnil
  | cons c rest ih =>
    rw [takeoversAfter, List.map_append]
    cases owner? earlier (Naming.pascal c) with
    | none => exact ih.cons c
    | some e => exact ih.cons_cons c

/-- Both names of a takeover are among the names. -/
theorem Consecutive.mem (h : Consecutive names a b) : a ∈ names ∧ b ∈ names := by
  obtain ⟨before, between, after, rfl, -, -⟩ := h
  simp

/-! ## The table along the loop -/

/-- The table has an entry of a canonical name exactly if a name before has
it, and then the entry comes from the nearest. -/
def Owners (earlier : List String) (table : List (String × Declared)) : Prop :=
  ∀ canonical, (table.lookup canonical).map Declared.source = owner? earlier canonical

/-- What is declared under its own canonical name keeps the owners. -/
theorem Owners.put {d : Declared} (h : Owners earlier table)
    (hname : d.declaration.name = Naming.pascal d.source) :
    Owners (d.source :: earlier) (put d.declaration.name d table) := by
  intro canonical
  rw [owner?, List.find?_cons]
  by_cases hcanonical : canonical = d.declaration.name
  · have hfirst : decide (Naming.pascal d.source = canonical) = true := by
      rw [decide_eq_true_iff, hcanonical, hname]
    rw [hfirst, hcanonical, lookup_put_self]
    rfl
  · have hother : decide (Naming.pascal d.source = canonical) = false := by
      rw [decide_eq_false_iff_not, ← hname]
      exact fun heq => hcanonical heq.symm
    rw [hother, lookup_put_of_ne hcanonical]
    exact h canonical

/-- The report that one name takes over from another. -/
def takeoverReport (e : String × String) : Report := .taken e.1 e.2 (Naming.pascal e.2)

/-- **What is reported as taken are the takeovers**, in their order. -/
theorem takenFrom_eq (h : Owners earlier table)
    (hnames : ∀ d ∈ ds, d.declaration.name = Naming.pascal d.source) :
    takenFrom table ds =
      (takeoversAfter earlier (ds.map Declared.source)).map takeoverReport := by
  induction ds generalizing earlier table with
  | nil => rfl
  | cons d rest ih =>
    obtain ⟨hname, hrest⟩ := List.forall_mem_cons.mp hnames
    have hfirst : takes table d =
        ((owner? earlier (Naming.pascal d.source)).map (·, d.source)).toList.map takeoverReport := by
      rw [takes, ← h, hname]
      cases table.lookup (Naming.pascal d.source) <;> rfl
    rw [takenFrom, List.map_cons, takeoversAfter, List.map_append, ih (h.put hname) hrest, hfirst]

/-- **Each declaration makes an entry or is reported as taking one.** -/
theorem length_takenFrom :
    (takenFrom table ds).length + (merge table (ds.map Declared.entry)).length =
      table.length + ds.length := by
  induction ds generalizing table with
  | nil => simp [takenFrom, merge]
  | cons d rest ih =>
    have hstep : (takes table d).length + (put d.declaration.name d table).length =
        table.length + 1 := by
      have hkeys : (put d.declaration.name d table).length =
          (keys (put d.declaration.name d table)).length := (List.length_map _).symm
      have htable : table.length = (keys table).length := (List.length_map _).symm
      rw [takes, hkeys, keys_put]
      cases hlookup : table.lookup d.declaration.name with
      | none =>
        rw [if_neg (lookup_eq_none_iff.mp hlookup), List.length_append, htable]
        exact Nat.zero_add _
      | some earlier =>
        rw [if_pos (exists_lookup_iff.mp ⟨earlier, hlookup⟩), htable]
        exact Nat.add_comm _ _
    have hmerge : merge table ((d :: rest).map Declared.entry) =
        merge (put d.declaration.name d table) (rest.map Declared.entry) := rfl
    have hrest : (takenFrom (put d.declaration.name d table) rest).length +
        (merge table ((d :: rest).map Declared.entry)).length =
          (put d.declaration.name d table).length + rest.length := hmerge ▸ ih
    rw [takenFrom, List.length_append, List.length_cons]
    omega

/-! ## What the table has in the end -/

/-- The values in the definitions of a course have texts. -/
theorem Course.printable (h : Course defs rest table p ds q) : ∀ d ∈ rest, Printable d.2 := by
  induction h with
  | done => exact fun d hd => absurd hd List.not_mem_nil
  | next hd _ ih =>
    obtain ⟨made, walk⟩ := declare_walk hd
    exact List.forall_mem_cons.mpr ⟨walk.printable_node, ih⟩

/-- Each definition of a course is declared under its canonical name, as it
is from some pass. -/
theorem Course.declared (h : Course defs rest table p ds q) (hin : ∀ e ∈ rest, e ∈ defs) :
    List.Forall₂ (fun e d => d.source = e.1 ∧ d.declaration.name = Naming.pascal e.1 ∧
      ∃ p q, (declare defs e.1 e.2).result p = (.ok d.declaration, q)) rest ds := by
  induction h with
  | done => exact .nil
  | @next name node rest table p inner q d ds hd _ ih =>
    have hname : name ∈ keys defs := List.mem_map_of_mem (hin (name, node) List.mem_cons_self)
    have hcanonical : d.name = Naming.pascal name := (declare_yields hname p d inner hd).2.name
    refine .cons ⟨rfl, hcanonical, p, inner, hd⟩ (ih fun e he => ?_)
    exact hin e (List.mem_cons_of_mem _ he)

/-- **The last definition of a canonical name is what stands under it.** -/
theorem Course.lookup_of_last {before after : Definitions}
    (h : Course defs (before ++ (name, node) :: after) table p ds q)
    (hin : ∀ e ∈ before ++ (name, node) :: after, e ∈ defs)
    (hlast : ∀ e ∈ after, Naming.pascal e.1 ≠ Naming.pascal name) :
    ∃ d, (merge table (ds.map Declared.entry)).lookup (Naming.pascal name) = some ⟨name, d⟩ ∧
      ∃ p q, (declare defs name node).result p = (.ok d, q) := by
  obtain ⟨first, ⟨source, d⟩, later, rfl, -, ⟨rfl, hcanonical, hd⟩, hlater⟩ :=
    exists_split (h.declared hin)
  refine ⟨d, ?_, hd⟩
  -- nothing behind it is written under its name
  have hkey : Naming.pascal source ∉ keys (later.map Declared.entry) := by
    intro hin
    rw [keys, List.map_map] at hin
    obtain ⟨l, hl, hentry⟩ := List.mem_map.mp hin
    obtain ⟨e, he, -, hename, -⟩ := exists_of_mem_right hlater hl
    exact hlast e he (hename.symm.trans hentry)
  have hentry : Declared.entry ⟨source, d⟩ = (Naming.pascal source, ⟨source, d⟩) := by
    rw [← hcanonical]
    rfl
  rw [List.map_append, List.map_cons, hentry]
  exact lookup_merge_last hkey

/-- **What is declared does not depend on the pass**, once all definitions
are declared from some pass. -/
theorem Course.declare_eq {d : Declaration} (h : Course defs defs table p ds q)
    (hmem : (name, node) ∈ defs) {p₀ q₀ : Pass}
    (hd : (declare defs name node).result p₀ = (.ok d, q₀)) (p' : Pass) :
    ∃ q', (declare defs name node).result p' = (.ok d, q') := by
  have hname : name ∈ keys defs := List.mem_map_of_mem hmem
  have hnode : Printable node := h.printable (name, node) hmem
  have houtcome := (declare_alike_of_printable hname h.printable hnode).outcome_eq p' p₀
  rw [hd] at houtcome
  exact ⟨((declare defs name node).result p').2, Prod.ext houtcome rfl⟩

/-! ## Reports, one by one -/

/-- **No takeover is reported twice**, if the names differ in their code points. -/
theorem nodup_takeoverReports (h : (names.map fun k => Text.points k.toList).Nodup) :
    ((takeovers names).map fun e => (takeoverReport e).entry).Nodup := by
  have hpairs : (takeovers names).Nodup :=
    (sublist_takeoversAfter.nodup (h.of_map _)).of_map _
  refine hpairs.map_on ?_
  rintro ⟨a, b⟩ hab ⟨a', b'⟩ hab' hentry
  obtain ⟨ha, hb⟩ := (mem_takeovers_iff.mp hab).mem
  obtain ⟨ha', hb'⟩ := (mem_takeovers_iff.mp hab').mem
  -- one message shows the same names, and these are told by their code points
  obtain ⟨hfirst, hrest⟩ := List.forall₂_cons.mp (Report.sameNames_of_entry_eq hentry).2
  obtain ⟨hsecond, -⟩ := List.forall₂_cons.mp hrest
  have hinj := List.inj_on_of_nodup_map h
  rw [hinj ha ha' hfirst, hinj hb hb' hsecond]

/-- **The last of several definitions with one canonical name wins, and every
loss is reported once.** If all definitions are declared, from any pass:

* the table has the canonical names of the definitions, each once, in the
  order in which they come first;
* under a canonical name it has what is declared for the last definition
  that has it, which is the same from any pass;
* the warnings about names that are taken are those for consecutive
  definitions of one canonical name, in the order of the later ones;
* with the entries of the table they are as many as the definitions;
* if the names of the definitions differ in their code points, there is
  exactly one for each two consecutive definitions, and it names the
  earlier, the later and their canonical name. -/
theorem collisions_reported (h : (declareAll defs).result p = (.ok table, q)) :
    keys table = (defs.map fun d => Naming.pascal d.1).eraseDups ∧ (keys table).Nodup ∧
    (∀ before name node after, defs = before ++ (name, node) :: after →
      (∀ d ∈ after, Naming.pascal d.1 ≠ Naming.pascal name) →
        ∃ d, table.lookup (Naming.pascal name) = some ⟨name, d⟩ ∧
          ∀ p', ∃ q', (declare defs name node).result p' = (.ok d, q')) ∧
    ∃ new, q.log = p.log ++ new ∧
      new.filter tellsTaken =
        (takeovers (keys defs)).map (fun e => (takeoverReport e).entry) ∧
      new.countP tellsTaken + table.length = defs.length ∧
      (((keys defs).map fun k => Text.points k.toList).Nodup →
        ∀ a b, Consecutive (keys defs) a b →
          new.count ⟨.warning, .types, collisionMessage a b (Naming.pascal b)⟩ = 1) := by
  obtain ⟨ds, course, htable⟩ := exists_course h
  obtain ⟨rs, htold, -, -, htaken⟩ := course.told fun _ => id
  have hdeclares := (course.declares fun _ => id).2.1
  have hsources : ds.map Declared.source = keys defs :=
    (map_eq_map hdeclares fun _ _ h => h.1.symm).symm
  have hnames : ∀ d ∈ ds, d.declaration.name = Naming.pascal d.source := by
    intro d hd
    obtain ⟨e, -, hsource, hd⟩ := exists_of_mem_right hdeclares hd
    rw [hd.name, hsource]
  have hkeys : keys table = (defs.map fun d => Naming.pascal d.1).eraseDups := by
    rw [htable]
    exact keys_table hdeclares
  have hfilter : (rs.map Report.entry).filter tellsTaken =
      (takeovers (keys defs)).map fun e => (takeoverReport e).entry := by
    have hkind : tellsTaken ∘ Report.entry = Report.isTaken := funext Report.tellsTaken_entry
    have hempty : Owners [] [] := fun _ => rfl
    rw [List.filter_map, hkind, htaken, takenFrom_eq hempty hnames, hsources, List.map_map]
    rfl
  refine ⟨hkeys, hkeys ▸ Distinct.nodup_eraseDups _, fun before name node after hsplit hlast => ?_,
    rs.map Report.entry, htold, hfilter, ?_, fun hdistinct a b hab => ?_⟩
  · have hin : ∀ e ∈ before ++ (name, node) :: after, e ∈ defs := by
      rw [hsplit]
      exact fun _ => id
    have hmem : (name, node) ∈ defs := hin _ (List.mem_append_right before List.mem_cons_self)
    have hcourse : Course defs (before ++ (name, node) :: after) [] p ds q := hsplit ▸ course
    obtain ⟨d, hlookup, p₀, q₀, hd⟩ := hcourse.lookup_of_last hin hlast
    rw [htable]
    exact ⟨d, hlookup, course.declare_eq hmem hd⟩
  · have hlength : (takenFrom [] ds).length + table.length = ds.length := by
      have hsum := @length_takenFrom [] ds
      rw [List.length_nil] at hsum
      rw [htable]
      exact hsum.trans (Nat.zero_add _)
    have hds : ds.length = defs.length := hdeclares.length_eq.symm
    have hcount : (rs.map Report.entry).countP tellsTaken = (takenFrom [] ds).length := by
      rw [← htaken, List.countP_map, List.countP_eq_length_filter]
      congr 2
      exact funext Report.tellsTaken_entry
    omega
  · have hmem : (takeoverReport (a, b)).entry ∈
        (takeovers (keys defs)).map fun e => (takeoverReport e).entry :=
      List.mem_map_of_mem (mem_takeovers_iff.mpr hab)
    have htells : tellsTaken (takeoverReport (a, b)).entry = true := Report.tellsTaken_entry _
    have hone := List.count_eq_one_of_mem (nodup_takeoverReports hdistinct) hmem
    rw [← hfilter, List.count_filter htells] at hone
    exact hone

/-- Three definitions with one canonical name, and one between them. -/
def namesakes : Definitions :=
  [("pet", .primitive "string" none none), ("tag", .unknown none),
    ("Pet", .reference "pet" none), ("pet-", .reference "tag" none)]

/-- The name is taken twice: by the second from the first and by the third
from the second, although something is kept of the first already. -/
theorem namesakes_reported :
    ∃ table q, (declareAll namesakes).result ⟨[("pet", .plain .any)], []⟩ = (.ok table, q) ∧
      keys table = ["Pet", "Tag"] ∧
      (∃ d, table.lookup "Pet" = some ⟨"pet-", d⟩ ∧
        ∃ q', (declare namesakes "pet-" (.reference "tag" none)).result ⟨[], []⟩ = (.ok d, q')) ∧
      q.log.countP tellsTaken = 2 ∧
      q.log.count ⟨.warning, .types, collisionMessage "pet" "Pet" "Pet"⟩ = 1 ∧
      q.log.count ⟨.warning, .types, collisionMessage "Pet" "pet-" "Pet"⟩ = 1 := by
  obtain ⟨table, q, h⟩ : ∃ table q,
      (declareAll namesakes).result ⟨[("pet", .plain .any)], []⟩ = (.ok table, q) :=
    ⟨_, _, by cbv⟩
  obtain ⟨hkeys, -, hlast, new, hnew, -, hlength, hone⟩ := collisions_reported h
  obtain rfl : q.log = new := hnew
  have hnames : keys table = ["Pet", "Tag"] := hkeys.trans (by decide)
  have htable : table.length = 2 := by
    rw [← List.length_map Prod.fst, ← keys, hnames]
    rfl
  have hdistinct : ((keys namesakes).map fun k => Text.points k.toList).Nodup := by decide
  have hfirst : Consecutive (keys namesakes) "pet" "Pet" := mem_takeovers_iff.mp (by decide)
  have hsecond : Consecutive (keys namesakes) "Pet" "pet-" := mem_takeovers_iff.mp (by decide)
  obtain ⟨d, hlookup, hdeclared⟩ := hlast
    [("pet", .primitive "string" none none), ("tag", .unknown none), ("Pet", .reference "pet" none)]
    "pet-" (.reference "tag" none) [] rfl (by simp)
  refine ⟨table, q, h, hnames, ⟨d, hlookup, hdeclared _⟩, ?_, hone hdistinct _ _ hfirst,
    hone hdistinct _ _ hsecond⟩
  have hdefs : namesakes.length = 4 := rfl
  omega

end TypeScript

end ApiMock
