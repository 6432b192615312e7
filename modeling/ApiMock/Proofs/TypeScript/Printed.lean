import ApiMock.Proofs.TypeScript.Keys
import ApiMock.Proofs.TypeScript.Tokens
import ApiMock.Proofs.TypeScript.Transparent
/-!
# TypeScript — types, printed and read

The resolver writes a type from the inside out and keeps only text: whether
an element needs parentheses is told by whether a bar shows in what was
written of it, be it in a literal or far inside. So there may be more
parentheses than needed, but never fewer. The text is read by the grammar
as the type that the node stands for (`printed_types_read`), and as no
other, so nodes that stand for different types are written differently.
-/

namespace ApiMock

namespace TypeScript

open Naming (isIdentifierChars)

/-! ## What a node stands for -/

namespace TypeTree

/-- The type that is named, if there is one with a keyword. -/
def ofDeclared (declared : Option String) : TypeTree :=
  match declared.bind Keyword.ofDeclared? with
  | some k => .keyword k
  | none => .any

/-- The type of a value. -/
def ofValue : Data → TypeTree
  | .scalar v => .literal v
  | _ => .any

mutual
/-- The type that a node stands for among definitions of the names `known`: an array applies to
the whole type of its elements, an enumeration has its values in order, and an object its
properties in order, by the texts that their names are read as. -/
def ofNode (known : List String) : Schema → TypeTree
  | .unknown _ => .any
  | .reference target _ => if known.contains target then .named (Naming.pascal target) else .any
  | .primitive declared _ _ => ofDeclared (some declared)
  | .array _ _ _ none => .array .any
  | .array _ _ _ (some items) => .array (ofNode known items)
  | .object _ _ _ properties required => .object (ofMembers known required properties)
  | .enumeration declared _ _ [] => ofDeclared declared
  | .enumeration _ _ _ values => ofChoices (values.map ofValue)

/-- The members of an object type, which may be missing if they are not required. -/
def ofMembers (known required : List String) :
    List (String × Schema) → List (PropertyKey × TypeTree)
  | [] => []
  | (name, property) :: rest =>
    (⟨Json.joined name, required.contains name⟩, ofNode known property) ::
      ofMembers known required rest
end

end TypeTree

variable {a b cs : List Char}

/-! ## Putting tokens together -/

/-- The text is cut into tokens that are read as the phrase. -/
def Prints (p : Phrase) (cs : List Char) : Prop :=
  ∃ ts, Cut Bounded cs ts ∧ Derives p ts

namespace Prints

variable {t : TypeTree} {trees : List TypeTree}

theorem choices_last (h : Prints (.element t) a) : Prints (.choices [t]) a := by
  obtain ⟨ts, hcut, ht⟩ := h
  exact ⟨ts, hcut, .last ht⟩

theorem choices_more (h : Prints (.element t) a) (hmore : Prints (.choices trees) b) :
    Prints (.choices (t :: trees)) (a ++ (" | ".toList ++ b)) := by
  obtain ⟨ts, hcut, ht⟩ := h
  obtain ⟨us, hcuts, hus⟩ := hmore
  have hbar : Cut Anything ['|'] [.mark '|'] := .mark (by decide)
  have hbars : Cut Bounded (" | ".toList ++ b) (.mark '|' :: us) :=
    (hbar.before hcuts.blank).blank
  exact ⟨_, hcut.bounded hbars (by decide), .more ht hus⟩

/-- The type of choices. -/
theorem type (h : Prints (.choices trees) a) : Prints (.type (ofChoices trees)) a := by
  obtain ⟨ts, hcut, ht⟩ := h
  exact ⟨ts, hcut, .type ht⟩

/-- What brackets can stand behind has none yet. -/
theorem element (h : Prints (.operand t) a) : Prints (.element t) a := by
  obtain ⟨ts, hcut, ht⟩ := h
  refine ⟨ts, hcut, ?_⟩
  have helement := Derives.element 0 ht
  rwa [brackets, List.append_nil] at helement

/-- One more pair of brackets. -/
theorem array (h : Prints (.element t) a) : Prints (.element (.array t)) (a ++ "[]".toList) := by
  obtain ⟨ts, hcut, ht⟩ := h
  have hopening : Cut Anything ['['] [.mark '['] := .mark (by decide)
  have hclosing : Cut Bounded [']'] [.mark ']'] := .mark (by decide)
  refine ⟨_, hcut.bounded (hopening.before hclosing) (by decide), ?_⟩
  cases ht with
  | element n ht =>
    rw [← arrays_succ, List.append_assoc]
    have helement := Derives.element (n + 1) ht
    rwa [brackets_succ] at helement

/-- A type in parentheses. -/
theorem group (h : Prints (.type t) a) :
    Prints (.operand t) ("(".toList ++ (a ++ ")".toList)) := by
  obtain ⟨ts, hcut, ht⟩ := h
  have hopening : Cut Anything ['('] [.mark '('] := .mark (by decide)
  have hclosing : Cut Bounded [')'] [.mark ')'] := .mark (by decide)
  exact ⟨_, hopening.before (hcut.bounded hclosing (by decide)), .group ht⟩

/-- A member: its key, and its type behind a colon. -/
theorem member {k : PropertyKey} {ks : List Token} (hkey : Cut Bounded a ks)
    (hk : DerivesKey k ks) (h : Prints (.type t) b) :
    Prints (.member (k, t)) (a ++ (": ".toList ++ b)) := by
  obtain ⟨ts, hcut, ht⟩ := h
  have hcolon : Cut Anything [':'] [.mark ':'] := .mark (by decide)
  exact ⟨_, hkey.bounded (hcolon.before hcut.blank) (by decide), .member hk ht⟩

variable {m : PropertyKey × TypeTree} {ms : List (PropertyKey × TypeTree)}

theorem members_last (h : Prints (.member m) a) : Prints (.members [m]) a := by
  obtain ⟨ts, hcut, ht⟩ := h
  exact ⟨ts, hcut, .lastMember ht⟩

theorem members_more (h : Prints (.member m) a) (hmore : Prints (.members ms) b) :
    Prints (.members (m :: ms)) (a ++ ("; ".toList ++ b)) := by
  obtain ⟨ts, hcut, ht⟩ := h
  obtain ⟨us, hcuts, hus⟩ := hmore
  have hsemicolon : Cut Anything [';'] [.mark ';'] := .mark (by decide)
  exact ⟨_, hcut.bounded (hsemicolon.before hcuts.blank) (by decide), .moreMembers ht hus⟩

/-- Members in braces. -/
theorem object (h : Prints (.members ms) a) :
    Prints (.operand (.object ms)) ("\x7b ".toList ++ (a ++ " \x7d".toList)) := by
  obtain ⟨ts, hcut, ht⟩ := h
  have hopening : Cut Anything ['\x7b'] [.mark '\x7b'] := .mark (by decide)
  have hclosing : Cut Bounded ['\x7d'] [.mark '\x7d'] := .mark (by decide)
  exact ⟨_, hopening.before (hcut.bounded hclosing.blank (by decide)).blank, .object ht⟩

theorem empty : Prints (.operand (.object [])) "\x7b\x7d".toList := by
  have hopening : Cut Anything ['\x7b'] [.mark '\x7b'] := .mark (by decide)
  have hclosing : Cut Bounded ['\x7d'] [.mark '\x7d'] := .mark (by decide)
  exact ⟨_, hopening.before hclosing, .empty⟩

/-- A word stands for what it is predefined as, or for the type of that name. -/
theorem word {w : String} (h : isIdentifierChars w.toList = true) :
    Prints (.operand (ofWord w)) w.toList :=
  ⟨_, .word h, .word w⟩

end Prints

/-! ## Values and keys -/

/-- A value that is written as a type of its own: a text, a whole number, a truth value or null. -/
inductive IsPlain : Data → Prop where
  | null : IsPlain (.scalar .null)
  | bool (b : Bool) : IsPlain (.scalar (.bool b))
  | int (n : Int) : IsPlain (.scalar (.int n))
  | str (s : String) : IsPlain (.scalar (.str s))

/-- **A plain value is printed as its type.** -/
theorem prints_value {v : Data} {l : Literal} (hv : IsPlain v) (h : Literal.ofData v = .ok l) :
    Prints (.operand (.ofValue v)) l.render.toList := by
  cases hv with
  | null =>
    cases h
    exact Prints.word (by decide)
  | bool b =>
    cases h
    cases b
    · exact Prints.word (by decide)
    · exact Prints.word (by decide)
  | int n =>
    obtain rfl : l = .int n := by
      rw [Literal.ofData] at h
      split at h
      · exact (Except.ok.inj h).symm
      · cases h
    exact ⟨_, .number n, .number n⟩
  | str s =>
    cases h
    exact ⟨_, .text s, .text s⟩

/-- A key without a line feed at its end is an identifier, or in quotes. -/
theorem cut_keyToken {name : String} (h : name.toList.getLast? ≠ some '\n') :
    ∃ t, Cut Bounded (keyToken name).toList [t] ∧
      DerivesKey ⟨Json.joined name, true⟩ [t] := by
  rw [keyToken]
  split
  · rename_i hidentifier
    have hchars : isIdentifierChars name.toList = true :=
      (Naming.isIdentifier_iff.mp hidentifier).resolve_right fun hfed => h hfed.1
    rw [joined_of_isIdentifier hidentifier]
    exact ⟨_, .word hchars, .word name⟩
  · exact ⟨_, .quoted name, .text _⟩

theorem cut_key {k : PropertyKey} (h : k.name.toList.getLast? ≠ some '\n') :
    ∃ ks, Cut Bounded k.render.toList ks ∧ DerivesKey ⟨Json.joined k.name, k.required⟩ ks := by
  obtain ⟨name, required⟩ := k
  obtain ⟨t, hcut, ht⟩ := cut_keyToken h
  rw [PropertyKey.render, propertyKey]
  cases required with
  | true => exact ⟨_, hcut, ht⟩
  | false =>
    have hmark : Cut Bounded ['?'] [.mark '?'] := .mark (by decide)
    refine ⟨_, ?_, .optional ht⟩
    rw [if_neg Bool.false_ne_true, String.toList_append]
    exact hcut.bounded hmark (by decide)

/-! ## Types -/

/-- The text is read as the type, and behind it as what brackets stand behind unless a bar shows
in it. -/
structure Printed (t : TypeTree) (cs : List Char) : Prop where
  type : Prints (.type t) cs
  element : showsBar cs = false → Prints (.element t) cs

theorem Printed.of_element {t : TypeTree} (h : Prints (.element t) cs) : Printed t cs where
  type := h.choices_last.type
  element _ := h

theorem Printed.of_operand {t : TypeTree} (h : Prints (.operand t) cs) : Printed t cs :=
  .of_element h.element

/-- **Brackets apply to the whole type in front of them**: there are parentheses around it if a
bar shows. -/
theorem Printed.array {t : TypeTree} {element : String} (h : Printed t element.toList) :
    Printed (.array t) (arrayText element).toList := by
  refine .of_element ?_
  rw [arrayText]
  split
  · have hgroup := h.type.group.element.array
    have hclosing : ")[]".toList = ")".toList ++ "[]".toList := rfl
    rw [String.toList_append, String.toList_append, hclosing]
    rwa [List.append_assoc, List.append_assoc] at hgroup
  · rename_i hbar
    rw [String.toList_append]
    exact (h.element (Bool.eq_false_iff.mpr hbar)).array

/-- A bar between two texts shows. -/
theorem showsBar_append : showsBar (a ++ (" | ".toList ++ b)) = true := by
  induction a with
  | nil => rfl
  | cons c a ih =>
    rw [List.cons_append]
    unfold showsBar
    split
    · rfl
    · rename_i hcons
      rw [← (List.cons.inj hcons).2]
      exact ih
    · rename_i hnil
      cases hnil

section

variable {values : List Data} {ls : List Literal}

/-- Values in a row are printed as choices. -/
theorem prints_choices (hplain : ∀ v ∈ values, IsPlain v) (hne : values ≠ [])
    (h : List.Forall₂ (fun v l => Literal.ofData v = .ok l) values ls) :
    Prints (.choices (values.map .ofValue))
      (List.intercalate " | ".toList (ls.map fun l => l.render.toList)) := by
  have hparts : List.Forall₂ (fun t cs => Prints (.element t) cs) (values.map .ofValue)
      (ls.map fun l => l.render.toList) := by
    obtain ⟨hlength, hzip⟩ := List.forall₂_iff_zip.mp h
    rw [List.forall₂_map_left_iff, List.forall₂_map_right_iff]
    refine List.forall₂_iff_zip.mpr ⟨hlength, fun hp => ?_⟩
    exact (prints_value (hplain _ (List.of_mem_zip hp).1) (hzip hp)).element
  exact @Sequence.of_intercalate _ _ _ _ (fun trees cs => Prints (.choices trees) cs) _ _
    (fun _ _ h => h.choices_last) (fun _ _ _ _ h hmore => h.choices_more hmore) hparts
    (by simpa using hne)

/-- **Values are printed as the type of the choice between them.** -/
theorem printed_union (hplain : ∀ v ∈ values, IsPlain v) (hne : values ≠ [])
    (h : List.Forall₂ (fun v l => Literal.ofData v = .ok l) values ls) :
    Printed (ofChoices (values.map .ofValue)) (TypeExpr.union ls).render.toList := by
  have htext : (TypeExpr.union ls).render.toList =
      List.intercalate " | ".toList (ls.map fun l => l.render.toList) := by
    rw [TypeExpr.render, String.toList_intercalate, List.map_map]
    rfl
  have hchoices := prints_choices hplain hne h
  rw [← htext] at hchoices
  refine ⟨hchoices.type, fun hbar => ?_⟩
  cases h with
  | nil => exact absurd rfl hne
  | @cons v l values ls hl hmore =>
    cases hmore with
    | nil =>
      obtain ⟨hv, -⟩ := List.forall_mem_cons.mp hplain
      exact (prints_value hv hl).element
    | @cons w k values ls hk _ =>
      have hbars : showsBar (TypeExpr.union (l :: k :: ls)).render.toList = true := by
        rw [htext, List.map_cons, List.map_cons, List.intercalate_cons_cons, List.append_assoc]
        exact showsBar_append
      rw [hbars] at hbar
      cases hbar

end

/-! ## Nodes -/

/-- What a node has to have for its type to be legible: plain values, names without a line feed
at their ends, and among the known names that it refers to only such as give a type name that
starts with a letter. -/
structure Legible (known : List String) (s : Schema) : Prop where
  values : ∀ v, s.Enumerates v → IsPlain v
  names : ∀ name, s.Has (fun n => name ∈ Entries.keys n.properties) →
    name.toList.getLast? ≠ some '\n'
  targets : ∀ target, s.Mentions target → target ∈ known →
    (Naming.pascal target).toList.head?.any Char.isAlpha = true

namespace Legible

variable {known required : List String} {declared format : Option String}
  {description : Option Data} {node : Schema} {properties : List (String × Schema)}

theorem element (h : Legible known (.array declared format description (some node))) :
    Legible known node where
  values v hv := h.values v (Schema.has_array.mpr (.inr hv))
  names name hname := h.names name (Schema.has_array.mpr (.inr hname))
  targets target htarget := h.targets target (Schema.has_array.mpr (.inr htarget))

theorem property (h : Legible known (.object declared format description properties required))
    {e : String × Schema} (he : e ∈ properties) : Legible known e.2 where
  values v hv := h.values v (Schema.has_object.mpr (.inr ⟨e, he, hv⟩))
  names name hname := h.names name (Schema.has_object.mpr (.inr ⟨e, he, hname⟩))
  targets target htarget := h.targets target (Schema.has_object.mpr (.inr ⟨e, he, htarget⟩))

end Legible

/-- A word that starts with a capital is not predefined. -/
theorem ofWord_of_isUpper {w : String} (h : w.toList.head?.any Char.isUpper = true) :
    ofWord w = .named w := by
  unfold ofWord
  split
  all_goals first
    | rfl
    | exact absurd h (by decide)

/-- A canonical name that starts with a letter starts with a capital. -/
theorem isUpper_head_pascal {name : String}
    (h : (Naming.pascal name).toList.head?.any Char.isAlpha = true) :
    (Naming.pascal name).toList.head?.any Char.isUpper = true := by
  rw [Naming.pascal, String.toList_ofList, Naming.head?_pascalChars] at h ⊢
  cases hfirst : name.toList.find? Char.isAlphanum with
  | none =>
    rw [hfirst] at h
    cases h
  | some c =>
    rw [hfirst, Option.map_some, Option.any_some, Text.isAlpha_iff] at h
    rw [Option.map_some, Option.any_some]
    exact h.resolve_right Text.not_isLower_toUpper

theorem prints_named {target : String}
    (h : (Naming.pascal target).toList.head?.any Char.isAlpha = true) :
    Prints (.operand (.named (Naming.pascal target))) (Naming.pascal target).toList := by
  have hidentifier : isIdentifierChars (Naming.pascal target).toList = true :=
    (Naming.isAlphanumeric_pascal target).isIdentifier_iff.mpr h
  have hword := Prints.word hidentifier
  rwa [ofWord_of_isUpper (isUpper_head_pascal h)] at hword

/-- What a declared type is printed as. -/
theorem printed_ofDeclared (declared : Option String) :
    Printed (TypeTree.ofDeclared declared) (TypeExpr.ofDeclared declared).render.toList := by
  refine .of_operand ?_
  rw [TypeTree.ofDeclared, TypeExpr.ofDeclared]
  cases declared.bind Keyword.ofDeclared? with
  | none => exact Prints.word (by decide)
  | some k =>
    cases k <;> exact Prints.word (by decide)

theorem printed_any : Printed .any TypeExpr.any.render.toList :=
  .of_operand (Prints.word (by decide))

/-- Properties are printed as members, one beside the other. -/
theorem prints_members {known required : List String} {properties : List (String × Schema)}
    {ms : List (PropertyKey × TypeExpr)}
    (hnames : ∀ e ∈ properties, e.1.toList.getLast? ≠ some '\n')
    (htypes : ∀ e ∈ properties, ∀ t, TypeExpr.ofNode known e.2 = .ok t →
      Printed (TypeTree.ofNode known e.2) t.render.toList)
    (h : TypeExpr.ofMembers known required properties = .ok ms) :
    List.Forall₂ (fun m cs => Prints (.member m) cs) (TypeTree.ofMembers known required properties)
      ((TypeExpr.renderMembers ms).map String.toList) := by
  induction properties generalizing ms with
  | nil =>
    rw [TypeExpr.ofMembers] at h
    obtain rfl := Except.ok.inj h
    rw [TypeTree.ofMembers, TypeExpr.renderMembers]
    exact .nil
  | cons e rest ih =>
    obtain ⟨hname, hnames⟩ := List.forall_mem_cons.mp hnames
    obtain ⟨htype, htypes⟩ := List.forall_mem_cons.mp htypes
    rw [TypeExpr.ofMembers] at h
    obtain ⟨t, ht, h⟩ := Sequence.of_bind_ok h
    obtain ⟨others, hothers, h⟩ := Sequence.of_bind_ok h
    obtain rfl := Except.ok.inj h
    obtain ⟨ks, hkey, hk⟩ := @cut_key ⟨e.1, required.contains e.1⟩ hname
    have hmember := Prints.member hkey hk (htype t ht).type
    rw [TypeTree.ofMembers, TypeExpr.renderMembers, List.map_cons, String.toList_append,
      String.toList_append, List.append_assoc]
    exact .cons hmember (ih hnames htypes hothers)

/-- **Properties are printed as the object type that has them.** -/
theorem prints_object {ms : List (PropertyKey × TypeExpr)}
    {members : List (PropertyKey × TypeTree)}
    (h : List.Forall₂ (fun m cs => Prints (.member m) cs) members
      ((TypeExpr.renderMembers ms).map String.toList)) :
    Prints (.operand (.object members)) (TypeExpr.object ms).render.toList := by
  cases ms with
  | nil =>
    rw [TypeExpr.renderMembers, List.map_nil] at h
    cases h
    rw [TypeExpr.render]
    exact Prints.empty
  | cons m rest =>
    have hne : members ≠ [] := by
      rintro rfl
      rw [TypeExpr.renderMembers, List.map_cons] at h
      cases h
    have hmembers := @Sequence.of_intercalate _ _ "; ".toList _
      (fun members cs => Prints (.members members) cs) _ _
      (fun _ _ h => h.members_last) (fun _ _ _ _ h hmore => h.members_more hmore) h hne
    rw [TypeExpr.render, String.toList_append, String.toList_append, String.toList_intercalate,
      List.append_assoc]
    · exact hmembers.object
    · exact nofun

/-- **The text of a type is read as what its node stands for.** -/
theorem printed_of_ofNode {known : List String} {s : Schema} {t : TypeExpr}
    (hs : Legible known s) (h : TypeExpr.ofNode known s = .ok t) :
    Printed (TypeTree.ofNode known s) t.render.toList := by
  induction s using Schema.induct generalizing t with
  | unknown description =>
    rw [TypeExpr.ofNode] at h
    obtain rfl := Except.ok.inj h
    rw [TypeTree.ofNode]
    exact printed_any
  | reference target description =>
    rw [TypeExpr.ofNode] at h
    obtain rfl := Except.ok.inj h
    rw [TypeTree.ofNode]
    split
    · rename_i hknown
      rw [List.contains_iff_mem] at hknown
      rw [TypeExpr.render]
      refine .of_operand (prints_named (hs.targets target ?_ hknown))
      exact Schema.has_reference.mpr ⟨description, rfl⟩
    · exact printed_any
  | primitive declared format description =>
    rw [TypeExpr.ofNode] at h
    obtain rfl := Except.ok.inj h
    rw [TypeTree.ofNode]
    exact printed_ofDeclared _
  | bare declared format description =>
    rw [TypeExpr.ofNode] at h
    obtain rfl := Except.ok.inj h
    rw [TypeTree.ofNode, TypeExpr.render]
    exact printed_any.array
  | array declared format description items ih =>
    rw [TypeExpr.ofNode] at h
    obtain ⟨t, ht, rfl⟩ := Sequence.of_map_ok h
    rw [TypeTree.ofNode, TypeExpr.render]
    exact (ih hs.element ht).array
  | object declared format description properties required ih =>
    rw [TypeExpr.ofNode] at h
    obtain ⟨ms, hms, rfl⟩ := Sequence.of_map_ok h
    rw [TypeTree.ofNode]
    refine .of_operand (prints_object (prints_members (fun e he => ?_) (fun e he t ht => ?_) hms))
    · exact hs.names e.1 (Schema.has_object.mpr (.inl (List.mem_map_of_mem he)))
    · exact ih e he (hs.property he) ht
  | enumeration declared format description values =>
    cases values with
    | nil =>
      rw [TypeExpr.ofNode] at h
      obtain rfl := Except.ok.inj h
      rw [TypeTree.ofNode]
      exact printed_ofDeclared _
    | cons v values =>
      rw [TypeExpr.ofNode] at h
      · obtain ⟨ls, hls, rfl⟩ := Sequence.of_map_ok h
        rw [TypeTree.ofNode]
        · refine printed_union (fun w hw => ?_) (List.cons_ne_nil _ _)
            (Sequence.forall₂_of_mapM hls)
          exact hs.values w (Schema.enumerates_enumeration.mpr hw)
        · exact List.cons_ne_nil _ _
      · exact List.cons_ne_nil _ _

/-! ## All of them -/

/-- **Types are printed unambiguously.** Among JSON values a node resolves. The text of the type
of a legible node is read as the type that the node stands for and as no other, so legible nodes
that stand for different types have different texts. The name of a member is that of its
property with halves side by side joined, which keeps its units, and changes nothing where no
halves are side by side. -/
theorem printed_types_read {defs : Definitions} {seen : List String} {node : Schema}
    (hseen : ∀ k ∈ seen, k ∈ Entries.keys defs) (hnode : Legible (Entries.keys defs) node) :
    (∀ p, (∀ d ∈ defs, d.2.JsonValued) → node.JsonValued →
      ∃ r q, (resolve defs seen node).result p = (.ok r, q)) ∧
    (∀ p r q, (resolve defs seen node).result p = (.ok r, q) →
      (∀ t, ReadsAs r.type.render t ↔ t = TypeTree.ofNode (Entries.keys defs) node) ∧
      ∀ other seen' node' p' r' q', (∀ k ∈ seen', k ∈ Entries.keys other) →
        Legible (Entries.keys other) node' → (resolve other seen' node').result p' = (.ok r', q') →
        TypeTree.ofNode (Entries.keys other) node' ≠ TypeTree.ofNode (Entries.keys defs) node →
        r'.type.render ≠ r.type.render) ∧
    ∀ name, Json.textUnits (Json.joined name) = Json.textUnits name ∧
      (Json.Whole name → Json.joined name = name) := by
  have hreads : ∀ {defs : Definitions} {seen : List String} {node : Schema} {p q : Pass}
      {r : Resolution}, (∀ k ∈ seen, k ∈ Entries.keys defs) → Legible (Entries.keys defs) node →
      (resolve defs seen node).result p = (.ok r, q) →
        ReadsAs r.type.render (TypeTree.ofNode (Entries.keys defs) node) := by
    intro defs seen node p q r hseen hnode h
    obtain ⟨ts, hcut, hts⟩ := (printed_of_ofNode hnode (ofNode_of_resolve hseen h)).type
    exact ⟨ts, hcut.lexes, hts⟩
  refine ⟨fun p hdefs hvalues => ?_, fun p r q h => ⟨fun t => ⟨fun ht => ?_, ?_⟩, ?_⟩,
    fun name => ⟨Json.textUnits_joined name, Json.joined_of_whole⟩⟩
  · obtain ⟨r, q, h, -⟩ := resolve_isOk (p := p) hseen hdefs hvalues
    exact ⟨r, q, h⟩
  · exact ht.unique (hreads hseen hnode h)
  · rintro rfl
    exact hreads hseen hnode h
  · intro other seen' node' p' r' q' hseen' hnode' h' hne htext
    have hother := hreads hseen' hnode' h'
    rw [htext] at hother
    exact hne (hother.unique (hreads hseen hnode h))

/-- An object with a choice between values below, and a reference. -/
def shelf : Schema :=
  .object none none none
    [("a | b", .array none none none
        (some (.enumeration none none none [.str "it's", .bool true, .null]))),
      ("pet", .array none none none (some (.reference "pet" none)))] ["pet"]

theorem enumerates_shelf {v : Data} (h : shelf.Enumerates v) :
    v = .str "it's" ∨ v = .bool true ∨ v = .null := by
  simpa [shelf, Schema.Enumerates] using h

theorem legible_shelf : Legible ["pet"] shelf where
  values v hv := by
    rcases enumerates_shelf hv with rfl | rfl | rfl
    · exact .str _
    · exact .bool _
    · exact .null
  names name hname := by
    have hname : name = "a | b" ∨ name = "pet" := by
      simpa [shelf, Schema.properties, Entries.keys, -List.mem_map] using hname
    rcases hname with rfl | rfl <;> decide
  targets target htarget _ := by
    have htarget : target = "pet" := by
      simpa [shelf, Schema.Mentions, eq_comm] using htarget
    rw [htarget]
    decide +kernel

/-- The choice is in parentheses, and the text is read back with them. -/
theorem shelf_read : ∃ r q,
    (resolve [("pet", .unknown none)] [] shelf).result ⟨[], []⟩ = (.ok r, q) ∧
      r.type.render = "\x7b \"a | b\"?: ('it\\'s' | true | null)[]; pet: Pet[] \x7d" ∧
      ReadsAs r.type.render (.object [
        (⟨"a | b", false⟩,
          .array (.union [.literal (.str "it's"), .literal (.bool true), .literal .null])),
        (⟨"pet", true⟩, .array (.named "Pet"))]) := by
  have hjson : shelf.JsonValued := by
    intro v hv
    rcases enumerates_shelf hv with rfl | rfl | rfl
    · exact .str _
    · exact .bool _
    · exact .null
  have hdefs : ∀ d ∈ [("pet", Schema.unknown none)], d.2.JsonValued := by
    simp [Schema.JsonValued, Schema.Enumerates]
  obtain ⟨hresolves, hprinted, -⟩ := @printed_types_read [("pet", .unknown none)] [] shelf
    (List.forall_mem_nil _) legible_shelf
  obtain ⟨r, q, h⟩ := hresolves ⟨[], []⟩ hdefs hjson
  have hexpr : TypeExpr.ofNode ["pet"] shelf = .ok (.object
      [(⟨"a | b", false⟩, .array (.union [.text "it's", .bool true, .null])),
        (⟨"pet", true⟩, .array (.named (Naming.pascal "pet")))]) := rfl
  have htype := (ofNode_of_resolve (List.forall_mem_nil _) h).symm.trans hexpr
  obtain ⟨hname, hpet, hpascal⟩ : Json.joined "a | b" = "a | b" ∧ Json.joined "pet" = "pet" ∧
      Naming.pascal "pet" = "Pet" := by decide +kernel
  refine ⟨r, q, h, ?_, ((hprinted _ r q h).1 _).mpr ?_⟩
  · rw [Except.ok.inj htype]
    decide +kernel
  · rw [← hname, ← hpet, ← hpascal]
    rfl

end TypeScript

end ApiMock
