import ApiMock.Proofs.Blueprint.Made
import ApiMock.Proofs.Schema.Usable
import ApiMock.Proofs.TypeScript.Skimmed
import ApiMock.Proofs.TypeScript.Yields
/-!
# TypeScript — descriptions stay in comments

A description becomes a comment on a line of its own, which is closed by its
end and by nothing before. So a reader of the declarations passes over it.
Nothing else of a declaration comes from a description: definitions are
declared alike whatever theirs say, as long as they are texts
(`descriptions_in_comments`).
-/

namespace ApiMock

/-! ## Nodes without descriptions -/

namespace Schema

mutual
/-- The node without any description in its tree. -/
def undescribed : Schema → Schema
  | .unknown _ => .unknown none
  | .reference target _ => .reference target none
  | .primitive declared format _ => .primitive declared format none
  | .array declared format _ none => .array declared format none none
  | .array declared format _ (some items) => .array declared format none (some (undescribed items))
  | .object declared format _ properties required =>
    .object declared format none (undescribedAll properties) required
  | .enumeration declared format _ values => .enumeration declared format none values

/-- Named nodes without descriptions. -/
def undescribedAll : List (String × Schema) → List (String × Schema)
  | [] => []
  | (name, node) :: rest => (name, undescribed node) :: undescribedAll rest
end

variable {nodes : List (String × Schema)} {node : Schema} {name : String}

theorem undescribedAll_eq_map : undescribedAll nodes = nodes.map (Prod.map id undescribed) := by
  induction nodes with
  | nil => rw [undescribedAll, List.map_nil]
  | cons e rest ih =>
    rw [undescribedAll, ih, List.map_cons]
    rfl

theorem lookup_undescribedAll :
    (undescribedAll nodes).lookup name = (nodes.lookup name).map undescribed := by
  rw [undescribedAll_eq_map, Entries.lookup_mapValues]

theorem description?_undescribed : node.undescribed.description? = none := by
  induction node using Schema.induct <;> rw [undescribed] <;> rfl

end Schema

namespace TypeScript

open Resolving Schema
open Text (pairCount)

variable {defs : Definitions} {seen required : List String} {node : Schema} {name : String}
  {p q : Pass}

/-! ## Comments -/

/-- The characters that end a line in any script, and the separators that do so in some. -/
def lineTerminators : List Char :=
  ['\n', '\x0b', '\x0c', '\r', '\x1c', '\x1d', '\x1e', '\u0085', '\u2028', '\u2029']

/-- A comment on one line, which is closed where it ends and nowhere before. -/
structure IsComment (indent line : String) : Prop where
  text : ∃ text, line = indent ++ "/** " ++ text ++ " */\n"
  once : pairCount '*' '/' line.toList = 1
  single : ∀ c ∈ line.toList.dropLast, c ∉ lineTerminators

/-- Nothing in a comment closes it or ends its line. -/
structure Harmless (text : String) : Prop where
  unclosed : pairCount '*' '/' text.toList = 0
  single : ∀ c ∈ text.toList, c ∉ lineTerminators

/-- **The text of a comment does no harm**, whatever it was made of. -/
theorem harmless_commentText (description : List Char) :
    Harmless (String.ofList (commentText description)) where
  unclosed := by
    rw [String.toList_ofList, commentText]
    exact Text.pairCount_replacePair (by decide) rfl rfl rfl
  single c hc := by
    have hmarks : ∀ c ∈ ['*', '\\', '/'], c ∉ lineTerminators := by decide
    have hsep : ∀ c ∈ [' '], c ∉ lineTerminators := by decide
    have hblank : ∀ c ∈ lineTerminators, Text.isBlank c = true := by decide
    rw [String.toList_ofList, commentText] at hc
    rcases Text.mem_replacePair hc with hc | hc
    · exact hmarks c hc
    · rcases Text.mem_joinWith hc with hc | ⟨word, hword, hc⟩
      · exact hsep c hc
      · intro hend
        have hword := Text.forall_mem_runs word hword c hc
        rw [hblank c hend] at hword
        cases hword

/-- A comment that is written does no harm. -/
theorem harmless_of_commentOf {description : Option Data} {comment : Option String}
    (h : commentOf description = .ok comment) : ∀ text ∈ comment, Harmless text := by
  have hempty : Harmless "" := ⟨rfl, List.forall_mem_nil _⟩
  unfold commentOf at h
  split at h
  · cases h
    exact nofun
  · split at h
    · split at h
      · split at h
        · cases h
          rintro _ ⟨⟩
          exact hempty
        · cases h
      · obtain ⟨s, -, h⟩ := Sequence.of_bind_ok h
        cases h
        rintro _ ⟨⟩
        exact harmless_commentText _
    · cases h
      exact nofun

/-- **The line of a comment is one comment**, behind blanks. -/
theorem isComment_commentLine {indent text : String} (hindent : ∀ c ∈ indent.toList, c = ' ')
    (h : Harmless text) : IsComment indent (commentLine indent (some text)) := by
  have hline : commentLine indent (some text) = indent ++ ("/** " ++ (text ++ " */\n")) := by
    simp only [commentLine, String.append_assoc]
  constructor
  · exact ⟨text, rfl⟩
  · have hblanks : pairCount '*' '/' indent.toList = 0 := by
      refine List.count_eq_zero.mpr fun hin => ?_
      exact absurd (hindent '*' (List.of_mem_zip hin).1) (by decide)
    have hmeet : indent.toList.getLast? ≠ some '*' := by
      intro hlast
      exact absurd (hindent '*' (List.mem_of_getLast? hlast)) (by decide)
    rw [hline, Emit.pairCount_line fun hpair => hmeet hpair.1, hblanks,
      Emit.pairCount_line (by simp), Emit.pairCount_line (by simp), h.unclosed]
    rfl
  · have hmarks : ∀ c ∈ "/** ".toList ++ " */".toList, c ∉ lineTerminators := by decide
    have hblank : ' ' ∉ lineTerminators := by decide
    have hchars : (commentLine indent (some text)).toList.dropLast =
        indent.toList ++ ("/** ".toList ++ (text.toList ++ " */".toList)) := by
      have hend : (commentLine indent (some text)).toList =
          (indent.toList ++ ("/** ".toList ++ (text.toList ++ " */".toList))) ++ ['\n'] := by
        rw [hline]
        simp
      rw [hend, List.dropLast_concat]
    rw [hchars]
    simp only [List.forall_mem_append] at hmarks ⊢
    refine ⟨fun c hc => ?_, hmarks.1, h.single, hmarks.2⟩
    rw [hindent c hc]
    exact hblank

/-! ## Declarations without comments -/

/-- The member without its comment. -/
def Member.bare (m : Member) : Member := { m with comment := none }

/-- The body without the comments in it. -/
def Body.bare : Body → Body
  | .interface members => .interface (members.map Member.bare)
  | .alias type => .alias type

/-- The declaration without its comments. -/
def Declaration.bare (d : Declaration) : Declaration :=
  { d with comment := none, body := d.body.bare }

/-- What is declared, without comments. -/
def Declared.bare (d : Declared) : Declared := { d with declaration := d.declaration.bare }

/-- The members that are declared. -/
def Declaration.members (d : Declaration) : List Member :=
  match d.body with
  | .interface members => members
  | .alias _ => []

/-- The comments of a declaration, each with what it is indented by. -/
def Declaration.comments (d : Declaration) : List (String × Option String) :=
  ("", d.comment) :: d.members.map fun m => ("  ", m.comment)

/-- A body with types that lead from code to code, and with harmless comments. -/
inductive Body.Readable : Body → Prop where
  | interface {members : List Member}
    (h : ∀ m ∈ members, SelfContained m.type.render.toList ∧ ∀ text ∈ m.comment, Harmless text) :
    Readable (.interface members)
  | other {type : TypeExpr} (h : SelfContained type.render.toList) : Readable (.alias type)

/-- So is a declaration. -/
structure Declaration.Readable (d : Declaration) : Prop where
  name : SelfContained d.name.toList
  comment : ∀ text ∈ d.comment, Harmless text
  body : d.body.Readable

/-- **A member counts as it does without its comment**, and ends its line. -/
theorem Member.countsAs_bare {m : Member} {s : Spot} (hs : s.Fresh)
    (htype : SelfContained m.type.render.toList) (hcomment : ∀ text ∈ m.comment, Harmless text) :
    CountsAs s m.render.toList m.bare.render.toList ∧ (s.run m.render.toList).Fresh := by
  have hsilent := @silent_commentLine s "  " m.comment hs (by decide)
    fun text htext => (hcomment text htext).unclosed
  have hline : ∃ line : List Char, m.render.toList = (commentLine "  " m.comment).toList ++ line ∧
      m.bare.render.toList = line ∧
      line = ("  ".toList ++ m.key.render.toList ++ ": ".toList ++ m.type.render.toList) ++
        ";\n".toList := by
    refine ⟨_, ?_, ?_, rfl⟩
    · simp only [Member.render, String.toList_append, List.append_assoc]
    · have hnone : commentLine "  " none = "" := rfl
      simp only [Member.render, Member.bare, hnone, String.empty_append, String.toList_append]
  obtain ⟨line, htext, hbare, hparts⟩ := hline
  have hcounts : CountsAs s m.render.toList m.bare.render.toList := by
    rw [htext, hbare]
    exact hsilent.append .refl
  refine ⟨hcounts, ?_⟩
  -- a semicolon and the end of the line stand behind what leads from code to code
  have hcontained : SelfContained
      ("  ".toList ++ m.key.render.toList ++ ": ".toList ++ m.type.render.toList) :=
    (((SelfContained.of_plain (by decide)).append (selfContained_key m.key)).append
      (.of_plain (by decide))).append htype
  rw [hcounts.run, hbare, hparts]
  exact hcontained.fresh_append hs.steady (by decide)

/-- So do several members. -/
theorem countsAs_members {members : List Member} {s : Spot} (hs : s.Fresh)
    (h : ∀ m ∈ members, SelfContained m.type.render.toList ∧ ∀ text ∈ m.comment, Harmless text) :
    CountsAs s (String.join (members.map Member.render)).toList
      (String.join ((members.map Member.bare).map Member.render)).toList := by
  induction members generalizing s with
  | nil => exact .refl
  | cons m rest ih =>
    obtain ⟨⟨htype, hcomment⟩, hrest⟩ := List.forall_mem_cons.mp h
    obtain ⟨hcounts, hnext⟩ := m.countsAs_bare hs htype hcomment
    rw [List.map_cons, List.map_cons, List.map_cons, String.join_cons, String.join_cons,
      String.toList_append, String.toList_append]
    exact hcounts.append (ih hnext hrest)

/-- **A declaration counts as it does without its comments.** -/
theorem Declaration.Readable.countsAs_bare {d : Declaration} (h : d.Readable) :
    CountsAs (.code true) d.render.toList d.bare.render.toList := by
  have hsilent := @silent_commentLine (.code true) "" d.comment (.inl rfl) (by decide)
    fun text htext => (h.comment text htext).unclosed
  have hnone : commentLine "" none = "" := rfl
  have hstart : (Spot.code true).run (commentLine "" d.comment).toList = .code true := hsilent.run
  obtain ⟨name, comment, body⟩ := d
  have hbody := h.body
  cases hbody with
  | other =>
    simp only [Declaration.render, Declaration.bare, Body.bare, hnone, String.empty_append,
      String.toList_append]
    exact hsilent.append .refl
  | interface hmembers =>
    -- the members start on a line of their own
    have hopen : ((Spot.code true).run ("export interface ".toList ++ name.toList ++
        " \x7b\n".toList)).Fresh := by
      have hcontained : SelfContained ("export interface ".toList ++ name.toList) :=
        (SelfContained.of_plain (by decide)).append h.name
      exact hcontained.fresh_append (.inl ⟨true, rfl⟩) (by decide)
    have hbraces := (CountsAs.refl.append (countsAs_members hopen hmembers)).append
      (@CountsAs.refl _ "\x7d".toList)
    rw [← hstart] at hbraces
    simp only [Declaration.render, Declaration.bare, Body.bare, hnone, String.empty_append,
      String.toList_append]
    exact hsilent.append hbraces

/-- **What is declared is readable.** -/
theorem declare_readable (hname : name ∈ Entries.keys defs) :
    Yields (declare defs name node) Declaration.Readable := by
  have hseen : ∀ k ∈ [name], k ∈ Entries.keys defs := by simpa using hname
  have htype : ∀ s, Yields (resolve defs [name] s) fun r => SelfContained r.type.render.toList :=
    fun s => (resolve_yields hseen).mono fun r hr => selfContained_of_ofNode hr
  have hof : ∀ body : Body, body.Readable →
      Yields (liftM (declarationOf name node body)) Declaration.Readable := by
    intro body hbody
    refine .lift fun d hd => ?_
    obtain ⟨comment, hcomment, rfl⟩ := Sequence.of_map_ok hd
    exact ⟨selfContained_pascal name, harmless_of_commentOf hcomment, hbody⟩
  rcases object_or_not node with ⟨t, f, d, ps, rs, rfl⟩ | hnot
  · rw [declare_eq_with, declareWith_object]
    have hmember : ∀ e ∈ ps, Yields (memberWith (resolve defs) name rs e) fun m =>
        SelfContained m.type.render.toList ∧ ∀ text ∈ m.comment, Harmless text := by
      intro e _
      refine (Yields.lift fun c hc => harmless_of_commentOf hc).bind fun comment hcomment => ?_
      exact (htype e.2).bind fun r hr => .pure ⟨hr, hcomment⟩
    refine (Yields.mapM hmember).bind fun ms hms => hof _ (.interface fun m hm => ?_)
    obtain ⟨e, -, h⟩ := Sequence.exists_of_mem_right hms hm
    exact h
  · rw [declare_eq_with, declareWith_alias hnot]
    exact (htype node).bind fun r hr => hof _ (.other hr)

/-! ## Resolving and declaring without descriptions -/

/-- **Resolving does not look at descriptions.** -/
theorem resolve_undescribed :
    resolve (undescribedAll defs) seen node.undescribed = resolve defs seen node := by
  have both : (∀ seen node, resolve (undescribedAll defs) seen node.undescribed =
        resolve defs seen node) ∧
      (∀ seen required properties,
        resolveMembers (undescribedAll defs) seen required (undescribedAll properties) =
          resolveMembers defs seen required properties) := by
    refine resolve.mutual_induct defs _ _ ?unknown ?primitive ?bare ?array ?unlisted
      ?enumeration ?object ?closed ?dangling ?reference ?nil ?cons
    case unknown | bare =>
      intros
      rw [undescribed, resolve, resolve]
    case primitive | unlisted =>
      intros
      rw [undescribed, resolve, resolve]
      rfl
    case array =>
      intro seen declared format description items ih
      rw [undescribed, resolve, resolve, ih]
    case enumeration =>
      intro seen declared format description values hne
      rw [undescribed, resolve, resolve] <;> exact hne
    case object =>
      intro seen declared format description properties required ih
      rw [undescribed, resolve, resolve, ih]
    case closed =>
      intro seen target description hseen
      rw [undescribed, resolve_eq_with, resolve_eq_with, resolveWith, resolveWith, if_pos hseen,
        if_pos hseen]
    case dangling =>
      intro seen target description hseen hdef
      rw [undescribed, resolve_eq_with, resolve_eq_with, resolveWith, resolveWith, if_neg hseen,
        if_neg hseen, lookup_undescribedAll, hdef]
      rfl
    case reference =>
      intro seen target description hseen definition hdef ih
      rw [undescribed, resolve_eq_with, resolve_eq_with, resolveWith, resolveWith, if_neg hseen,
        if_neg hseen, lookup_undescribedAll, hdef, Option.map_some]
      simp only [ih]
    case nil =>
      intros
      rw [undescribedAll, resolveMembers, resolveMembers]
    case cons =>
      intro seen required name property rest ih ihrest
      rw [undescribedAll, resolveMembers, resolveMembers, ih, ihrest]
  exact both.1 seen node

/-- What is declared, from a body whose comment can be written. -/
theorem bare_declarationOf {body : Body} (h : ∃ c, commentOf node.description? = .ok c) :
    Declaration.bare <$> (liftM (declarationOf name node body) : Resolving Declaration) =
      liftM (declarationOf name node.undescribed body.bare) := by
  obtain ⟨c, hc⟩ := h
  rw [declarationOf, declarationOf, hc, description?_undescribed]
  rfl

/-- **Declaring without descriptions is declaring, comments aside**, if they can be written. -/
theorem declare_undescribed (h : node.Commented) :
    declare (undescribedAll defs) name node.undescribed =
      Declaration.bare <$> declare defs name node := by
  rcases object_or_not node with ⟨t, f, d, ps, rs, rfl⟩ | hnot
  · have hmember : ∀ e ∈ ps,
        memberWith (resolve (undescribedAll defs)) name rs (Prod.map id undescribed e) =
          Member.bare <$> memberWith (resolve defs) name rs e := by
      intro e he
      obtain ⟨c, hc⟩ := h.properties e he
      have hok : ∀ c,
          (liftM (Except.ok c : Except Failure (Option String)) : Resolving _) = pure c :=
        fun _ => rfl
      have hnone : commentOf none = .ok none := rfl
      simp only [memberWith, Prod.map_snd, Prod.map_fst, id_eq, description?_undescribed,
        resolve_undescribed, hc, hnone, hok, pure_bind, map_bind, map_pure]
      rfl
    have hmembers : (undescribedAll ps).mapM (memberWith (resolve (undescribedAll defs)) name rs) =
        List.map Member.bare <$> ps.mapM (memberWith (resolve defs) name rs) := by
      rw [@undescribedAll_eq_map ps, mapM_map_eq hmember]
    rw [undescribed, declare_eq_with, declare_eq_with, declareWith_object, declareWith_object,
      hmembers, bind_map_left, map_bind]
    refine bind_congr fun ms => ?_
    rw [bare_declarationOf h.self, undescribed]
    rfl
  · have hnot' : ∀ t f d ps rs, node.undescribed ≠ .object t f d ps rs := by
      intro t f d ps rs heq
      induction node using Schema.induct with
      | object t f d ps rs => exact hnot t f d ps rs rfl
      | _ => rw [undescribed] at heq; cases heq
    rw [declare_eq_with, declare_eq_with, declareWith_alias hnot, declareWith_alias hnot', map_bind,
      resolve_undescribed]
    exact bind_congr fun r => (@bare_declarationOf node name (.alias r.type) h.self).symm

/-- The table without comments. -/
def bareTable (table : List (String × Declared)) : List (String × Declared) :=
  table.map (Prod.map id Declared.bare)

/-- So is its place in the table, and what it takes over there. -/
theorem declareInto_undescribed (h : node.Commented) (table : List (String × Declared)) :
    declareInto (undescribedAll defs) (bareTable table) name node.undescribed =
      bareTable <$> declareInto defs table name node := by
  have hcollisions : ∀ e : Declaration,
      collisions (bareTable table) name e.bare = collisions table name e := by
    intro e
    have hlookup :
        (bareTable table).lookup e.bare.name = (table.lookup e.name).map Declared.bare :=
      Entries.lookup_mapValues
    rw [collisions, collisions, hlookup]
    cases table.lookup e.name <;> rfl
  have hput : ∀ e : Declaration, Entries.put e.bare.name ⟨name, e.bare⟩ (bareTable table) =
      bareTable (Entries.put e.name ⟨name, e⟩ table) := by
    intro e
    rw [bareTable, bareTable]
    exact @Entries.put_mapValues _ _ _ e.name ⟨name, e⟩ table _ Declared.bare
  rw [declareInto_eq, declareInto_eq, declare_undescribed h, bind_map_left, map_bind]
  refine bind_congr fun e => ?_
  rw [hcollisions, map_bind]
  refine bind_congr fun u => ?_
  rw [map_pure, hput]

/-- **Declaring all definitions without descriptions is declaring them, comments aside.** -/
theorem declareAll_undescribed (h : ∀ d ∈ defs, d.2.Commented) :
    declareAll (undescribedAll defs) = bareTable <$> declareAll defs := by
  have hloop : (defs.map (Prod.map id undescribed)).foldlM
      (fun table d => declareInto (undescribedAll defs) table d.1 d.2) (bareTable []) =
        bareTable <$> defs.foldlM (fun table d => declareInto defs table d.1 d.2) [] :=
    foldlM_map_eq fun d hd table => declareInto_undescribed (h d hd) table
  rw [← undescribedAll_eq_map] at hloop
  exact hloop

/-- What is declared on a course is readable. -/
theorem Course.readable {rest : Definitions} {table : List (String × Declared)} {ds : List Declared}
    (h : Course defs rest table p ds q) (hin : ∀ e ∈ rest, e ∈ defs) :
    ∀ d ∈ ds, d.declaration.Readable := by
  induction h with
  | done => exact List.forall_mem_nil _
  | @next name node rest table p inner q d ds hd onward ih =>
    obtain ⟨hnode, hrest⟩ := List.forall_mem_cons.mp hin
    have hname : name ∈ Entries.keys defs := List.mem_map_of_mem hnode
    exact List.forall_mem_cons.mpr ⟨(declare_readable hname p d inner hd).2, ih hrest⟩

/-- So is all that the table has. -/
theorem readable_of_declareAll {table : List (String × Declared)}
    (h : (declareAll defs).result p = (.ok table, q)) : ∀ e ∈ table, e.2.declaration.Readable := by
  obtain ⟨ds, course, rfl⟩ := exists_course h
  intro e he
  rcases Entries.mem_of_mem_merge he with ⟨f, hf, hvalue⟩ | hnone
  · obtain ⟨d, hd, rfl⟩ := List.mem_map.mp hf
    rw [← hvalue]
    exact course.readable (fun _ => id) d hd
  · cases hnone

/-- The comments of a readable declaration are comments, or none. -/
theorem Declaration.Readable.isComment {d : Declaration} (h : d.Readable) : ∀ c ∈ d.comments,
    commentLine c.1 c.2 = "" ∨ IsComment c.1 (commentLine c.1 c.2) := by
  have hline : ∀ (indent : String) (comment : Option String), (∀ c ∈ indent.toList, c = ' ') →
      (∀ text ∈ comment, Harmless text) →
        commentLine indent comment = "" ∨ IsComment indent (commentLine indent comment) := by
    intro indent comment hindent hcomment
    cases comment with
    | none => exact .inl rfl
    | some text => exact .inr (isComment_commentLine hindent (hcomment text rfl))
  have hindents : (∀ c ∈ "".toList, c = ' ') ∧ ∀ c ∈ "  ".toList, c = ' ' := by decide
  obtain ⟨name, comment, body⟩ := d
  refine List.forall_mem_cons.mpr ⟨hline _ _ hindents.1 h.comment, List.forall_mem_map.mpr ?_⟩
  have hbody := h.body
  cases hbody with
  | other => exact List.forall_mem_nil _
  | interface hmembers => exact fun m hm => hline _ _ hindents.2 (hmembers m hm).2

/-! ## All of them -/

/-- What is read of the declarations of a table. -/
def readTable (table : List (String × Declared)) : List (String × Option String) :=
  table.map fun e => (e.1, readCode e.2.declaration.render)

/-- **Descriptions stay in comments.**

* A description that is a text has a comment, and the line of it is empty or
  one line, which starts and ends as a comment and is closed by its end only.
* All comments of what is declared are such lines, and what is read of a
  declaration is what is read of it without them.
* Two schema maps that differ in descriptions only, whatever these say, are
  declared alike from any pass, as long as the comments can be written: they
  fail alike, or have the same names, keys and types, and the same is read of
  them. -/
theorem descriptions_in_comments :
    (∀ s : String, ∃ c, commentOf (some (.scalar (.str s))) = .ok c ∧
      ∀ indent : String, (∀ ch ∈ indent.toList, ch = ' ') →
        commentLine indent c = "" ∨ IsComment indent (commentLine indent c)) ∧
    (∀ defs p table q, (declareAll defs).result p = (.ok table, q) → ∀ e ∈ table,
      (∀ c ∈ e.2.declaration.comments,
        commentLine c.1 c.2 = "" ∨ IsComment c.1 (commentLine c.1 c.2)) ∧
      readCode e.2.declaration.render = readCode e.2.declaration.bare.render) ∧
    ∀ defs other p, undescribedAll defs = undescribedAll other →
      (∀ d ∈ defs, d.2.Commented) → (∀ d ∈ other, d.2.Commented) →
        ∃ o o' q, (declareAll defs).result p = (o, q) ∧ (declareAll other).result p = (o', q) ∧
          bareTable <$> o = bareTable <$> o' ∧
          ∀ table table', o = .ok table → o' = .ok table' → readTable table = readTable table' := by
  have hread : ∀ defs p table q, (declareAll defs).result p = (.ok table, q) →
      readTable table = readTable (bareTable table) := by
    intro defs p table q h
    rw [readTable, readTable, bareTable, List.map_map]
    refine List.map_congr_left fun e he => congrArg (Prod.mk e.1) ?_
    exact (readable_of_declareAll h e he).countsAs_bare.readCode_eq
  refine ⟨fun s => ?_, fun defs p table q h e he => ?_, fun defs other p hsame hdefs hother => ?_⟩
  · obtain ⟨c, hc⟩ := Schema.commentOf_str s
    refine ⟨c, hc, fun indent hindent => ?_⟩
    cases c with
    | none => exact .inl rfl
    | some text =>
      exact .inr (isComment_commentLine hindent (harmless_of_commentOf hc text rfl))
  · have hreadable := readable_of_declareAll h e he
    exact ⟨hreadable.isComment, hreadable.countsAs_bare.readCode_eq⟩
  · have hbare : bareTable <$> declareAll defs = bareTable <$> declareAll other := by
      rw [← declareAll_undescribed hdefs, hsame, declareAll_undescribed hother]
    rcases hrun : (declareAll defs).result p with ⟨o, q⟩
    rcases hrun' : (declareAll other).result p with ⟨o', q'⟩
    have hresults : (bareTable <$> o, q) = (bareTable <$> o', q') := by
      rw [← result_map hrun, ← result_map hrun', hbare]
    obtain ⟨htables, rfl⟩ := Prod.mk.inj hresults
    refine ⟨o, o', q, rfl, rfl, htables, ?_⟩
    rintro table table' rfl rfl
    rw [hread defs p table q hrun, hread other p table' q hrun', Except.ok.inj htables]

/-- A definition with descriptions that try to close their comments. -/
def remarked : Definitions :=
  [("Pet", .object (some "object") none (some (.str "Ends */ here,\u2028export type Pet = 'any"))
    [("name", .primitive "string" none (some (.str "**/ age: any; /*"))),
      ("tag", .enumeration none none (some (.str " */")) [.str "*/ /*"])] ["name"])]

/-- The same definition without them. -/
def unremarked : Definitions :=
  [("Pet", .object (some "object") none none
    [("name", .primitive "string" none none),
      ("tag", .enumeration none none none [.str "*/ /*"])] ["name"])]

/-- None of them is read, and what is written in a type is. -/
theorem remarked_read : ∃ table q, (declareAll remarked).result ⟨[], []⟩ = (.ok table, q) ∧
    readTable table =
      [("Pet", some " export interface Pet \x7b name: string; tag?: '*/ /*'; \x7d")] := by
  have hsame : undescribedAll remarked = undescribedAll unremarked := by
    simp [remarked, unremarked, undescribedAll, undescribed]
  have hremarked : ∀ d ∈ remarked, d.2.Commented := by
    refine List.forall_mem_singleton.mpr ⟨Schema.commentOf_str _, ?_⟩
    refine List.forall_mem_cons.mpr ⟨Schema.commentOf_str _, ?_⟩
    exact List.forall_mem_singleton.mpr (Schema.commentOf_str _)
  have hunremarked : ∀ d ∈ unremarked, d.2.Commented := by
    have hnone : ∃ c, commentOf none = .ok c := ⟨none, rfl⟩
    refine List.forall_mem_singleton.mpr ⟨hnone, ?_⟩
    exact List.forall_mem_cons.mpr ⟨hnone, List.forall_mem_singleton.mpr hnone⟩
  obtain ⟨-, -, hdeclared⟩ := descriptions_in_comments
  obtain ⟨o, o', q, hrun, hrun', htables, hread⟩ :=
    hdeclared remarked unremarked ⟨[], []⟩ hsame hremarked hunremarked
  have hplain : (declareAll unremarked).result ⟨[], []⟩ =
      (.ok [("Pet", ⟨"Pet", "Pet", none, .interface [⟨none, ⟨"name", true⟩, .keyword .string⟩,
        ⟨none, ⟨"tag", false⟩, .union [.text "*/ /*"]⟩]⟩)], ⟨[], []⟩) := by cbv
  obtain ⟨rfl, rfl⟩ := Prod.mk.inj (hrun'.symm.trans hplain)
  cases o with
  | error e => cases htables
  | ok table =>
    refine ⟨table, _, hrun, (hread table _ rfl rfl).trans ?_⟩
    decide +kernel

end TypeScript

end ApiMock
