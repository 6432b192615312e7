import ApiMock.Proofs.Data.JsonValue
import ApiMock.Proofs.Entries
import ApiMock.Proofs.Schema.Tree
import ApiMock.Spec
/-!
# Schema — how nodes are read

`Reads d s` says that the schema `d` can be read as the node `s`, with one
rule for each form; it leaves open in which order the forms are tried.
Whatever `parse` gives is read so (`reads_of_parse`), so what holds of
every node that is read goes by induction on the rules. The first such
fact: nodes read from JSON values enumerate JSON values only.
-/

namespace ApiMock

namespace Schema

open Sequence

/-- The ways a node is read from a schema. -/
inductive Reads : Data → Schema → Prop where
  | unknown (d : Data) : Reads d (.unknown none)
  | reference {es : List (Scalar × Data)} {pointer : Data} {text : String}
      (hp : Data.lookup "$ref" es = some pointer) (ht : pointer.text = .ok text) :
      Reads (.map es) (.reference (Naming.refName text) (describe es))
  /-- An `allOf` that nothing is known of. -/
  | undecided {es : List (Scalar × Data)} {members : Data}
      (ha : Data.lookup "allOf" es = some members) :
      Reads (.map es) (inheritDescription es (.unknown none))
  /-- An `allOf` with one member. -/
  | member {es : List (Scalar × Data)} {members d : Data} {s : Schema}
      (ha : Data.lookup "allOf" es = some members) (hd : members.Holds d) (h : Reads d s) :
      Reads (.map es) (inheritDescription es s)
  /-- An `allOf` whose members are merged. -/
  | merged {es : List (Scalar × Data)} {members : Data} {parts : List (Data × Schema)}
      (ha : Data.lookup "allOf" es = some members) (hd : ∀ e ∈ parts, members.Holds e.1)
      (h : ∀ e ∈ parts, Reads e.1 e.2) :
      Reads (.map es) (inheritDescription es (mergeMembers (parts.map Prod.snd)))
  | enumeration {es : List (Scalar × Data)} {listed : Data} {values : List Data}
      (he : Data.lookup "enum" es = some listed) (hv : listed.elementsOrNone = .ok values) :
      Reads (.map es) (.enumeration (declare es) (formatOf es) (describe es) values)
  | bare (es : List (Scalar × Data)) :
      Reads (.map es) (.array (declare es) (formatOf es) (describe es) none)
  | array {es : List (Scalar × Data)} {d : Data} {s : Schema}
      (hi : Data.lookup "items" es = some d) (h : Reads d s) :
      Reads (.map es) (.array (declare es) (formatOf es) (describe es) (some s))
  /-- An object without `properties`. -/
  | closed {es : List (Scalar × Data)} {required : List Data}
      (hr : requiredNames es = .ok required) :
      Reads (.map es) (.object (declare es) (formatOf es) (describe es) []
        (required.filterMap Data.fieldText?).eraseDups)
  | object {es ps : List (Scalar × Data)} {parts : List (Scalar × Data × Schema)}
      {required : List Data} (hp : Data.lookup "properties" es = some (.map ps))
      (hd : ∀ e ∈ parts, (e.1, e.2.1) ∈ ps) (h : ∀ e ∈ parts, Reads e.2.1 e.2.2)
      (hr : requiredNames es = .ok required) :
      Reads (.map es) (.object (declare es) (formatOf es) (describe es)
        (Data.textKeyed (parts.map fun e => (e.1, e.2.2)))
        (required.filterMap Data.fieldText?).eraseDups)
  | primitive {es : List (Scalar × Data)} {word : String}
      (hw : (declaredType es).text? = some word) (ha : word ≠ "array") (ho : word ≠ "object") :
      Reads (.map es) (.primitive word (formatOf es) (describe es))

/-! ## Members that are merged -/

/-- Properties are merged as if they stood in one list. -/
theorem merged_properties {nodes : List Schema} {ps : List (String × Schema)} :
    nodes.foldl (fun ps n => Entries.merge ps n.properties) ps =
      Entries.merge ps (nodes.flatMap properties) := by
  induction nodes generalizing ps with
  | nil => rfl
  | cons n rest ih => rw [List.foldl_cons, ih, List.flatMap_cons, Entries.merge_append]

/-- What members give when they are merged: an object that has the properties of all of them,
each where it first comes up and as it last comes up, if all of them are objects. -/
theorem mergeMembers_eq {nodes : List Schema} : mergeMembers nodes =
    if ∀ n ∈ nodes, n.kind = .object then
      object (some "object") none none (Entries.ofList (nodes.flatMap properties))
        (nodes.flatMap required).eraseDups
    else unknown none := by
  rw [mergeMembers, merged_properties, Entries.ofList]
  simp only [List.all_eq_true, decide_eq_true_eq]

/-- The properties of merged members are properties of the members. -/
theorem exists_of_mem_merged {nodes : List Schema} {e : String × Schema}
    (h : e ∈ Entries.ofList (nodes.flatMap properties)) : ∃ n ∈ nodes, e ∈ n.properties :=
  List.mem_flatMap.mp (Entries.mem_of_mem_ofList h)

/-! ## Parts of what is read -/

/-- What a record is once it is let through. -/
theorem of_refuseFaults {faults : List FieldFault} {s n : Schema}
    (h : (do Data.refuseFaults faults; return n) = (.ok s : Except Failure Schema)) : s = n := by
  obtain ⟨_, _, h⟩ := of_bind_ok h
  cases h
  rfl

/-- Items are read one by one. -/
theorem parseItems_eq_mapM {items : List Data} : parseItems items = items.mapM parse := by
  induction items with
  | nil =>
    rw [parseItems, List.mapM_nil]
    rfl
  | cons d rest ih => rw [parseItems, List.mapM_cons, ih]

/-! ## What is read, is read by the rules -/

mutual

/-- **A schema that is read, is read by the rules.** -/
theorem reads_of_parse {d : Data} {s : Schema} (h : parse d = .ok s) : Reads d s := by
  match d with
  | .map es =>
    rw [parse] at h
    -- the forms in the order in which they are tried
    split at h
    · rename_i pointer hp
      obtain ⟨text, ht, h⟩ := of_bind_ok h
      cases of_refuseFaults h
      exact .reference hp ht
    split at h
    · rename_i members ha
      obtain ⟨n, hn, rfl⟩ := of_map_ok h
      exact reads_of_parseAllOf ha hn
    split at h
    · cases h
      exact .unknown _
    split at h
    · rename_i listed he
      obtain ⟨values, hv, h⟩ := of_bind_ok h
      cases of_refuseFaults h
      exact .enumeration he hv
    split at h
    · rename_i items hi
      split at h
      · obtain ⟨n, hn, h⟩ := of_bind_ok h
        cases of_refuseFaults h
        exact .array hi (reads_of_parse hn)
      · cases of_refuseFaults h
        exact .bare es
    split at h
    · cases of_refuseFaults h
      exact .bare es
    rename_i harray
    split at h
    · rename_i ps hp
      obtain ⟨read, hread, h⟩ := of_bind_ok h
      obtain ⟨required, hr, h⟩ := of_bind_ok h
      cases of_refuseFaults h
      obtain ⟨parts, rfl, hparts⟩ := reads_of_parseEntries hread
      exact .object hp (fun e he => (hparts e he).1) (fun e he => (hparts e he).2) hr
    · split at h
      · cases h
      · obtain ⟨required, hr, h⟩ := of_bind_ok h
        cases of_refuseFaults h
        exact .closed hr
    · split at h
      · obtain ⟨required, hr, h⟩ := of_bind_ok h
        cases of_refuseFaults h
        exact .closed hr
      rename_i hobject
      rw [primitiveOf] at h
      split at h
      · rename_i word hw
        cases of_refuseFaults h
        exact .primitive hw (fun e => harray (hw.trans (congrArg some e)))
          fun e => hobject (hw.trans (congrArg some e))
      · cases h
        exact .unknown _
  | .scalar _ | .list _ | .pair _ _ | .set _ | .loop _ =>
    rw [parse] at h
    · cases h
      exact .unknown _
    · simp
termination_by sizeOf d
decreasing_by
  all_goals
    have hm := Data.sizeOf_lookup_lt ‹List.lookup _ es = some _›
    simp only [Data.map.sizeOf_spec] at hm ⊢
    omega

/-- The same for the members of an `allOf`, which are read on behalf of
the schema that has it. -/
theorem reads_of_parseAllOf {es : List (Scalar × Data)} {members : Data} {s : Schema}
    (ha : Data.lookup "allOf" es = some members) (h : parseAllOf members = .ok s) :
    Reads (.map es) (inheritDescription es s) := by
  have hempty : Reads (.map es) (inheritDescription es (mergeMembers [])) :=
    @Reads.merged es members [] ha (by simp) (by simp)
  rw [parseAllOf.eq_def] at h
  split at h
  · rename_i d
    exact .member ha (List.mem_cons_self : d ∈ [d]) (reads_of_parse h)
  · rename_i items _
    obtain ⟨read, hread, rfl⟩ := of_map_ok h
    obtain ⟨parts, rfl, hparts⟩ := reads_of_parseItems hread
    exact .merged ha (fun e he => (hparts e he).1) fun e he => (hparts e he).2
  · rename_i a b
    obtain ⟨m, hm, h⟩ := of_bind_ok h
    obtain ⟨n, hn, h⟩ := of_bind_ok h
    cases h
    have hparts : ∀ e ∈ [(a, m), (b, n)], (Data.pair a b).Holds e.1 ∧ Reads e.1 e.2 := by
      simp [Data.Holds, reads_of_parse hm, reads_of_parse hn]
    exact @Reads.merged es _ [(a, m), (b, n)] ha (fun e he => (hparts e he).1)
      fun e he => (hparts e he).2
  · split at h
    · exact .member ha ⟨_, List.mem_cons_self, rfl⟩ (reads_of_parse h)
    · cases h
  · cases h
    exact .undecided ha
  · cases h
  · cases h
    exact .undecided ha
  · cases h
    split
    · exact hempty
    · exact .undecided ha
  · cases h
    split
    · exact hempty
    · exact .undecided ha
  · split at h
    · cases h
    · cases h
      exact hempty
termination_by sizeOf members
decreasing_by
  all_goals
    rw [‹members = _›]
    simp +arith

/-- The same for a list of schemas. -/
theorem reads_of_parseItems {items : List Data} {read : List Schema}
    (h : parseItems items = .ok read) : ∃ parts : List (Data × Schema),
      read = parts.map Prod.snd ∧ ∀ e ∈ parts, e.1 ∈ items ∧ Reads e.1 e.2 := by
  match items with
  | [] =>
    rw [parseItems] at h
    cases h
    exact ⟨[], rfl, by simp⟩
  | d :: rest =>
    rw [parseItems] at h
    obtain ⟨n, hn, h⟩ := of_bind_ok h
    obtain ⟨ns, hns, h⟩ := of_bind_ok h
    cases h
    obtain ⟨parts, rfl, hparts⟩ := reads_of_parseItems hns
    refine ⟨(d, n) :: parts, rfl, ?_⟩
    rintro e (_ | ⟨_, he⟩)
    · exact ⟨List.mem_cons_self, reads_of_parse hn⟩
    · exact ⟨List.mem_cons_of_mem d (hparts e he).1, (hparts e he).2⟩
termination_by sizeOf items

/-- The same for schemas under keys. -/
theorem reads_of_parseEntries {ps : List (Scalar × Data)} {read : List (Scalar × Schema)}
    (h : parseEntries ps = .ok read) : ∃ parts : List (Scalar × Data × Schema),
      read = parts.map (fun e => (e.1, e.2.2)) ∧
        ∀ e ∈ parts, (e.1, e.2.1) ∈ ps ∧ Reads e.2.1 e.2.2 := by
  match ps with
  | [] =>
    rw [parseEntries] at h
    cases h
    exact ⟨[], rfl, by simp⟩
  | (k, d) :: rest =>
    rw [parseEntries] at h
    obtain ⟨n, hn, h⟩ := of_bind_ok h
    obtain ⟨ns, hns, h⟩ := of_bind_ok h
    cases h
    obtain ⟨parts, rfl, hparts⟩ := reads_of_parseEntries hns
    refine ⟨(k, d, n) :: parts, rfl, ?_⟩
    rintro e (_ | ⟨_, he⟩)
    · exact ⟨List.mem_cons_self, reads_of_parse hn⟩
    · exact ⟨List.mem_cons_of_mem _ (hparts e he).1, (hparts e he).2⟩
termination_by sizeOf ps

end

end Schema

end ApiMock
