import ApiMock.Proofs.OpenApi.Loading
/-!
# OpenApi — documents with names for keys

A value gets names for keys: the texts of its keys, at every depth that lists
and mappings lead to. Of keys that share a text the last one gives the value
and the first one the place (`Named`). A value that has names already, each of
them once, is `Proper`: these are the values that stay as they are, and all
that is named is one of them. So acceptance answers to an accepted document
with that document.
-/

namespace ApiMock

open Sequence

variable {α β : Type}

/-! ## The last entry under a text -/

/-- An entry behind which no other one has the text of its key. -/
def IsLast (e : Scalar × α) (es : List (Scalar × α)) : Prop :=
  ∃ before after, es = before ++ e :: after ∧ ∀ x ∈ after, x.1.shown ≠ e.1.shown

/-- Under a text that a key has, one entry is the last. -/
theorem exists_isLast {es : List (Scalar × α)} {name : String}
    (h : name ∈ es.map fun e => e.1.shown) : ∃ e, IsLast e es ∧ e.1.shown = name := by
  induction es with
  | nil => cases h
  | cons e rest ih =>
    by_cases hrest : name ∈ rest.map fun e => e.1.shown
    · obtain ⟨x, ⟨before, after, rfl, hafter⟩, hx⟩ := ih hrest
      exact ⟨x, ⟨e :: before, after, rfl, hafter⟩, hx⟩
    · obtain rfl := (List.mem_cons.mp h).resolve_right hrest
      refine ⟨e, ⟨[], rest, rfl, fun x hx heq => ?_⟩, rfl⟩
      exact hrest (List.mem_map.mpr ⟨x, hx, heq⟩)

/-- Where entries stand beside entries under the texts of their keys, the last one of a text
stands beside the value that is written for it. -/
theorem IsLast.beside {R : α → β → Prop} {es : List (Scalar × α)} {fields : List (String × β)}
    (h : List.Forall₂ (fun e f => f.1 = e.1.shown ∧ R e.2 f.2) es fields) {e : Scalar × α}
    (he : IsLast e es) :
    ∃ b, R e.2 b ∧ (Entries.ofList fields).lookup e.1.shown = some b := by
  obtain ⟨before, after, rfl, hafter⟩ := he
  obtain ⟨front, f, later, rfl, -, ⟨hname, hvalue⟩, hlater⟩ := exists_split h
  refine ⟨f.2, hvalue, Entries.lookup_ofList_eq_some.mpr ⟨front, later, by rw [← hname], ?_⟩⟩
  intro hin
  obtain ⟨g, hg, hgname⟩ := List.mem_map.mp hin
  obtain ⟨x, hx, hxname, -⟩ := exists_of_mem_right hlater hg
  exact hafter x hx (hxname ▸ hgname)

namespace Entries

/-- A mapping with texts for keys is written under the same keys. -/
theorem ofList_str {fields : List (String × α)} :
    ofList (fields.map (Prod.map Scalar.str id)) =
      (ofList fields).map (Prod.map Scalar.str id) := by
  induction fields using List.reverseRecOn with
  | nil => rfl
  | append_singleton before f ih =>
    calc ofList ((before ++ [f]).map (Prod.map Scalar.str id))
      _ = ofList (before.map (Prod.map Scalar.str id) ++ [(.str f.1, f.2)]) := by
        rw [List.map_append]
        rfl
      _ = put (.str f.1) f.2 (ofList (before.map (Prod.map Scalar.str id))) := merge_append
      _ = (put f.1 f.2 (ofList before)).map (Prod.map Scalar.str id) := by
        rw [ih]
        exact put_mapKeys fun _ _ => rfl
      _ = (ofList (before ++ [f])).map (Prod.map Scalar.str id) := by
        rw [ofList, ofList, merge_append]
        rfl

end Entries

namespace Data

/-! ## Names for keys -/

/-- **One value is another with names for keys.** A mapping has the texts of the keys, each
once and where a key first has it, and under a text what the last entry of that text holds. -/
inductive Named : Data → Data → Prop where
  | scalar (s : Scalar) : Named (.scalar s) (.scalar s)
  | pair (a b : Data) : Named (.pair a b) (.pair a b)
  | set (members : List Scalar) : Named (.set members) (.set members)
  | list {items keyed : List Data} (length : items.length = keyed.length)
      (item : ∀ i, (hi : i < items.length) → (hk : i < keyed.length) → Named items[i] keyed[i]) :
      Named (.list items) (.list keyed)
  | map {es : List (Scalar × Data)} {fields : List (String × Data)}
      (keys : Entries.keys fields = (es.map fun e => e.1.shown).eraseDups)
      (value : ∀ e, IsLast e es → ∀ f ∈ fields, f.1 = e.1.shown → Named e.2 f.2) :
      Named (.map es) (.object fields)

/-- A value whose mappings have names for keys, each of them once. -/
inductive Proper : Data → Prop where
  | scalar (s : Scalar) : Proper (.scalar s)
  | pair (a b : Data) : Proper (.pair a b)
  | set (members : List Scalar) : Proper (.set members)
  | list {items : List Data} (item : ∀ d ∈ items, Proper d) : Proper (.list items)
  | map {fields : List (String × Data)} (keys : (Entries.keys fields).Nodup)
      (value : ∀ f ∈ fields, Proper f.2) : Proper (.object fields)

variable {d e : Data}

/-- Entries with names for keys make up a mapping of their names. -/
theorem Named.of_entries {es : List (Scalar × Data)} {fields : List (String × Data)}
    (h : List.Forall₂ (fun e f => f.1 = e.1.shown ∧ e.2.Named f.2) es fields) :
    (Data.map es).Named (.object (Entries.ofList fields)) := by
  refine .map ?_ fun e he f hf hname => ?_
  · rw [Entries.keys_ofList, Entries.keys]
    congr 1
    induction h with
    | nil => rfl
    | cons hef _ ih => rw [List.map_cons, List.map_cons, hef.1, ih]
  · obtain ⟨b, hvalue, hlookup⟩ := he.beside h
    rw [← hname, Entries.lookup_of_mem Entries.nodup_keys_ofList hf] at hlookup
    exact Option.some.inj hlookup ▸ hvalue

mutual

/-- A value that gets names for keys gets those of `Named`. -/
theorem named_of_withTextKeys {d e : Data} (h : d.withTextKeys = .ok e) : d.Named e := by
  match d with
  | .map es =>
    obtain ⟨named, hnamed, h⟩ := of_bind_ok h
    cases h
    obtain ⟨fields, rfl, hfields⟩ := named_of_entriesWithTextKeys hnamed
    rw [Entries.ofList_str]
    exact .of_entries hfields
  | .list items =>
    obtain ⟨keyed, hkeyed, h⟩ := of_bind_ok h
    cases h
    have hall := named_of_itemsWithTextKeys hkeyed
    exact .list hall.length_eq fun i hi hk => hall.get hi hk
  | .loop _ => cases h
  | .scalar s =>
    cases h
    exact .scalar s
  | .pair a b =>
    cases h
    exact .pair a b
  | .set members =>
    cases h
    exact .set members

theorem named_of_itemsWithTextKeys {items keyed : List Data}
    (h : itemsWithTextKeys items = .ok keyed) : List.Forall₂ Named items keyed := by
  match items with
  | [] =>
    cases h
    exact .nil
  | d :: rest =>
    obtain ⟨e, he, h⟩ := of_bind_ok h
    obtain ⟨others, hothers, h⟩ := of_bind_ok h
    cases h
    exact .cons (named_of_withTextKeys he) (named_of_itemsWithTextKeys hothers)

theorem named_of_entriesWithTextKeys {es named : List (Scalar × Data)}
    (h : entriesWithTextKeys es = .ok named) :
    ∃ fields : List (String × Data), named = fields.map (Prod.map .str id) ∧
      List.Forall₂ (fun e f => f.1 = e.1.shown ∧ e.2.Named f.2) es fields := by
  match es with
  | [] =>
    cases h
    exact ⟨[], rfl, .nil⟩
  | (k, d) :: rest =>
    obtain ⟨name, hname, h⟩ := of_bind_ok h
    obtain ⟨e, he, h⟩ := of_bind_ok h
    obtain ⟨others, hothers, h⟩ := of_bind_ok h
    cases h
    obtain ⟨fields, rfl, hfields⟩ := named_of_entriesWithTextKeys hothers
    refine ⟨(name, e) :: fields, rfl, .cons ⟨?_, named_of_withTextKeys he⟩ hfields⟩
    rw [Scalar.plainText] at hname
    split at hname
    · exact (Except.ok.inj hname).symm
    · cases hname

end

/-- There is one value with names for keys. -/
theorem Named.unique (h : d.Named e) {other : Data} (hother : d.Named other) : e = other := by
  induction h generalizing other with
  | scalar | pair | set =>
    cases hother
    rfl
  | list length _ ih =>
    cases hother with
    | list length' item =>
      refine congrArg Data.list (List.ext_getElem (length.symm.trans length') fun i hi hi' => ?_)
      exact ih i (length ▸ hi) hi (item i _ hi')
  | @map es fields keys _ ih =>
    generalize hmapping : Data.map es = mapping at hother
    cases hother with
    | @map es' fields' keys' value' =>
      cases hmapping
      have hsame : Entries.keys fields = Entries.keys fields' := keys.trans keys'.symm
      have hnodup : (Entries.keys fields).Nodup := keys ▸ Distinct.nodup_eraseDups _
      refine congrArg object (Entries.eq_of_keys_of_lookup hnodup hsame fun name => ?_)
      by_cases hin : name ∈ Entries.keys fields
      · -- the last entry of a text decides on both sides
        obtain ⟨x, hx, rfl⟩ := exists_isLast (List.mem_eraseDups.mp (keys ▸ hin))
        obtain ⟨a, ha⟩ := Entries.exists_lookup_iff.mpr hin
        obtain ⟨b, hb⟩ := Entries.exists_lookup_iff.mpr (hsame ▸ hin)
        have hvalue := value' x hx _ (Entries.mem_of_lookup hb) rfl
        rw [ha, hb]
        exact congrArg some (ih x hx _ (Entries.mem_of_lookup ha) rfl hvalue)
      · rw [Entries.lookup_eq_none_iff.mpr hin, Entries.lookup_eq_none_iff.mpr (hsame ▸ hin)]
    | _ => cases hmapping

/-- **A value gets the names of `Named`**, unless there is a reason against it. -/
theorem withTextKeys_eq_ok_iff :
    d.withTextKeys = .ok e ↔ (∀ f, ¬ d.Unnamed f) ∧ d.Named e := by
  constructor
  · intro h
    exact ⟨withTextKeys_isOk_iff.mp ⟨e, h⟩, named_of_withTextKeys h⟩
  · rintro ⟨hreason, hnamed⟩
    obtain ⟨other, hother⟩ := withTextKeys_isOk_iff.mpr hreason
    rw [hother, hnamed.unique (named_of_withTextKeys hother)]

/-! ## Values that stay as they are -/

/-- What has names for keys has each once. -/
theorem Named.proper (h : d.Named e) : e.Proper := by
  induction h with
  | scalar s => exact .scalar s
  | pair a b => exact .pair a b
  | set members => exact .set members
  | @list items keyed length _ ih =>
    refine .list fun d hd => ?_
    obtain ⟨i, hi, rfl⟩ := List.mem_iff_getElem.mp hd
    exact ih i (length ▸ hi) hi
  | @map es fields keys _ ih =>
    refine .map (keys ▸ Distinct.nodup_eraseDups _) fun f hf => ?_
    have hin : f.1 ∈ Entries.keys fields := List.mem_map_of_mem hf
    obtain ⟨x, hx, hname⟩ := exists_isLast (List.mem_eraseDups.mp (keys ▸ hin))
    exact ih x hx f hf hname.symm

/-- A value that has names, each of them once, is itself with names for keys. -/
theorem Proper.named (h : d.Proper) : d.Named d := by
  induction h with
  | scalar s => exact .scalar s
  | pair a b => exact .pair a b
  | set members => exact .set members
  | list _ ih => exact .list rfl fun i hi _ => ih _ (List.getElem_mem hi)
  | @map fields keys _ ih =>
    have hnames : (fields.map fun f => ((Scalar.str f.1, f.2) : Scalar × Data)).map
        (fun e => e.1.shown) = Entries.keys fields := by
      rw [List.map_map]
      rfl
    refine .map (by rw [hnames, Distinct.eraseDups_of_nodup keys]) ?_
    rintro e ⟨before, after, hes, -⟩ f hf hname
    have he : e ∈ fields.map fun f => ((Scalar.str f.1, f.2) : Scalar × Data) := by
      rw [hes]
      simp
    obtain ⟨g, hg, rfl⟩ := List.mem_map.mp he
    have hvalue := Entries.lookup_of_mem keys hf
    rw [hname, Scalar.shown_str, Entries.lookup_of_mem keys hg] at hvalue
    exact Option.some.inj hvalue ▸ ih g hg

/-- It has no reason against that. -/
theorem Proper.no_reason (h : d.Proper) {f : Failure} : ¬ d.Unnamed f := by
  induction h with
  | scalar | pair | set => nofun
  | list _ ih =>
    intro hf
    cases hf with
    | item hd hf => exact ih _ hd hf
  | map _ _ ih =>
    intro hf
    cases hf with
    | key he htext =>
      obtain ⟨g, -, rfl⟩ := List.mem_map.mp he
      cases htext
    | value he hf =>
      obtain ⟨g, hg, rfl⟩ := List.mem_map.mp he
      exact ih g hg hf

/-- **The values that stay as they are** have names for keys, each of them once. -/
theorem withTextKeys_eq_self_iff : d.withTextKeys = .ok d ↔ d.Proper := by
  rw [withTextKeys_eq_ok_iff]
  exact ⟨fun h => h.2.proper, fun h => ⟨fun _ => h.no_reason, h.named⟩⟩

end Data

/-! ## Accepted documents -/

namespace OpenApi

variable {d e : Data}

/-- Acceptance looks at a mapping with texts for keys only. -/
theorem outcome_of_withTextKeys {es fs : List (Scalar × Data)}
    (h : (Data.map es).withTextKeys = (Data.map fs).withTextKeys) :
    (validate (.map es)).outcome = (validate (.map fs)).outcome := by
  rw [validate, validate, h]

/-- **An accepted document is accepted as it is**, and the same is reported. -/
theorem validate_accepted (h : (validate d).outcome.1 = .ok e) :
    (validate e).outcome = (validate d).outcome := by
  cases d with
  | map es =>
    cases hk : (Data.map es).withTextKeys with
    | error f =>
      rw [validate_of_keys hk] at h
      cases h
    | ok document =>
      obtain ⟨named, -, hmapping⟩ := of_bind_ok hk
      cases hmapping
      rw [validate_of_textKeyed hk] at h
      obtain ⟨v, -, h⟩ := of_bind_ok h
      obtain ⟨u, -, h⟩ := of_bind_ok h
      cases h
      have hstays := Data.withTextKeys_eq_self_iff.mpr (Data.named_of_withTextKeys hk).proper
      exact outcome_of_withTextKeys (hstays.trans hk.symm)
  | _ => cases h

/-- **What becomes of a value's keys.** A value gets names for keys unless one has no text or
the value holds itself, and they are those of `Named`. What is named is proper, the proper
values are those that stay as they are, and so an accepted document is accepted as it is. -/
theorem keys_named (d : Data) :
    (∀ e, d.withTextKeys = .ok e ↔ (∀ f, ¬ d.Unnamed f) ∧ d.Named e) ∧
      (∀ f, d.withTextKeys = .error f → d.Unnamed f) ∧
      (∀ e, d.withTextKeys = .ok e → e.Proper ∧ e.withTextKeys = .ok e) ∧
      (d.withTextKeys = .ok d ↔ d.Proper) ∧
      ∀ e, (validate d).outcome.1 = .ok e → (validate e).outcome = (validate d).outcome := by
  refine ⟨fun e => Data.withTextKeys_eq_ok_iff, fun f => Data.unnamed_of_withTextKeys,
    fun e h => ?_, Data.withTextKeys_eq_self_iff, fun e => validate_accepted⟩
  have hproper := (Data.named_of_withTextKeys h).proper
  exact ⟨hproper, Data.withTextKeys_eq_self_iff.mpr hproper⟩

theorem lt_tenTo {n k : Nat} (h : n ≤ k) : n < tenTo k :=
  h.trans_lt (Nat.lt_pow_self (by decide))

/-- A whole number of few digits has a text. -/
theorem hasText_int {n : Int} (h : n.natAbs ≤ Number.mostDigits) :
    (Scalar.int n).hasText = true := by
  rw [Scalar.hasText, Number.hasText, decide_eq_true_iff, Number.textBound]
  generalize Number.mostDigits = digits at h ⊢
  exact lt_tenTo h

/-- Two keys with one text, and a truth value for a key further down. -/
def statuses : Data :=
  .map [(.int 200, .str "found"),
    (.str "default", .list [.map [(.bool true, .null), (.str "x", .int 1)]]),
    (.str "200", .str "listed")]

/-- The last of the two gives the value and the first one the place. -/
theorem statuses_named :
    statuses.Named (.object [("200", .str "listed"),
      ("default", .list [.object [("True", .null), ("x", .int 1)]])]) := by
  refine (((keys_named statuses).1 _).mp ?_).2
  have hkey : (Scalar.int 200).plainText = .ok "200" := if_pos (hasText_int (by decide))
  simp only [statuses, Data.withTextKeys, Data.entriesWithTextKeys, hkey]
  rfl

/-- The least number of too many digits has no text for a key. So not every mapping gets names
for keys, also if it holds scalars only. -/
theorem long_key_unnamed : ¬ ∀ es : List (Scalar × Data), (∀ e ∈ es, ∃ s, e.2 = .scalar s) →
    ∃ e, (Data.map es).withTextKeys = .ok e := by
  intro h
  obtain ⟨e, he⟩ := h [(.int Number.textBound, .null)] (by
    rintro f (_ | ⟨_, ⟨⟩⟩)
    exact ⟨_, rfl⟩)
  have hkey : Scalar.hasText (.int Number.textBound) = false := by
    rw [Scalar.hasText, Number.hasText]
    generalize Number.textBound = bound
    simp
  exact Data.withTextKeys_isOk_iff.mp ⟨e, he⟩ tooManyDigits (.key List.mem_cons_self hkey)

end OpenApi

end ApiMock
