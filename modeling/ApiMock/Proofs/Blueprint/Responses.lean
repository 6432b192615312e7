import ApiMock.Proofs.Blueprint.Contents
import ApiMock.Proofs.Blueprint.Made
/-!
# Blueprint — the response that is answered with

Of the responses of an operation one gives the status of success and one the type. The status is
that of the first response whose status starts with a two and has only digits; the type is that of
the first whose status starts with a two, so a range like `2XX` counts for it. The two are one
response unless a status of the second kind stands first (`status_and_type`).
-/

namespace ApiMock

open TypeScript Entries Sequence

/-- The first element of a list with a property. -/
def IsFirst {α : Type} (P : α → Prop) (xs : List α) (x : α) : Prop :=
  ∃ before after, xs = before ++ x :: after ∧ P x ∧ ∀ y ∈ before, ¬ P y

section

variable {α : Type} {P : α → Prop} {xs : List α} {x y : α}

/-- It is what is found by a test for the property. -/
theorem isFirst_iff_find? {p : α → Bool} (hp : ∀ x, p x = true ↔ P x) :
    IsFirst P xs x ↔ xs.find? p = some x := by
  rw [List.find?_eq_some_iff_append]
  simp only [IsFirst, Bool.not_eq_true', ← Bool.not_eq_true, hp]
  constructor
  · rintro ⟨before, after, hxs, hx, hbefore⟩
    exact ⟨hx, before, after, hxs, hbefore⟩
  · rintro ⟨hx, before, after, hxs, hbefore⟩
    exact ⟨before, after, hxs, hx, hbefore⟩

theorem IsFirst.holds (h : IsFirst P xs x) : P x := by
  obtain ⟨_, _, -, hx, -⟩ := h
  exact hx

/-- No list has two. -/
theorem IsFirst.unique (hx : IsFirst P xs x) (hy : IsFirst P xs y) : x = y := by
  classical
  have htest : ∀ x, decide (P x) = true ↔ P x := fun _ => decide_eq_true_iff
  exact Option.some.inj (((isFirst_iff_find? htest).mp hx).symm.trans
    ((isFirst_iff_find? htest).mp hy))

/-- The first element with a property is the first with any other that it has, if no element before
has that one. -/
theorem IsFirst.of_imp {Q : α → Prop} (h : IsFirst P xs x) (hQ : Q x) (himp : ∀ y, Q y → P y) :
    IsFirst Q xs x := by
  obtain ⟨before, after, hxs, -, hbefore⟩ := h
  exact ⟨before, after, hxs, hQ, fun y hy hQy => hbefore y hy (himp y hQy)⟩

/-- Before the first element with a narrower property, or there, stands one with the wider. -/
theorem IsFirst.exists_of_imp {Q : α → Prop} (h : IsFirst Q xs x) (himp : ∀ y, Q y → P y) :
    ∃ y, IsFirst P xs y := by
  classical
  obtain ⟨before, after, rfl, hQ, -⟩ := h
  have htest : ∀ x, decide (P x) = true ↔ P x := fun _ => decide_eq_true_iff
  have hsome : ((before ++ x :: after).find? fun y => decide (P y)).isSome := by
    rw [List.find?_isSome]
    exact ⟨x, by simp, (htest x).mpr (himp x hQ)⟩
  obtain ⟨y, hy⟩ := Option.isSome_iff_exists.mp hsome
  exact ⟨y, (isFirst_iff_find? htest).mpr hy⟩

end

/-- The status starts as one of success does. -/
def Response.OfSuccess (w : Response) : Prop := w.status.toList.head? = some '2'

/-- The status has only digits. -/
def Response.IsNumeric (w : Response) : Prop := w.status.toList.all Text.isDigitLike = true

instance {w : Response} : Decidable w.OfSuccess :=
  decEq (w.status.toList.head?) (some '2')

instance {w : Response} : Decidable w.IsNumeric :=
  decEq (w.status.toList.all Text.isDigitLike) true

/-- The type of an answer is that of the JSON content of a response, and `void` if it has none. -/
structure EndpointTypes.AnswersWith (defs : Definitions) (w : Response) (e : EndpointTypes) :
    Prop where
  void : w.content.lookup Blueprint.jsonContent = none → e.responseText = "void"
  typed : ∀ node, w.content.lookup Blueprint.jsonContent = some node →
    ∃ t, TypeExpr.ofNode (keys defs) node = .ok t ∧ e.responseText = t.render

namespace Blueprint

variable {s : Spec} {config : Option Config} {seed : Option Seed} {b : Blueprint}
  {log : List LogEntry} {o : Operation} {r : Route} {e : EndpointTypes} {v w : Response}

/-- **A route has the first numeric status of success.** -/
theorem status_of_classify (h : Route.classify o = .ok r)
    (hw : IsFirst (fun w => w.OfSuccess ∧ w.IsNumeric) o.responses w) :
    statusNumber w.status.toList = .ok r.successStatus := by
  have hfind : (o.responses.find? fun r =>
      r.status.toList.head? = some '2' && r.status.toList.all Text.isDigitLike) = some w :=
    (isFirst_iff_find? fun r => by rw [Bool.and_eq_true, decide_eq_true_iff]; rfl).mp hw
  obtain ⟨success, hsuccess, h⟩ := of_bind_ok h
  obtain ⟨failure, -, h⟩ := of_bind_ok h
  cases h
  rw [firstStatus, hfind] at hsuccess
  obtain ⟨n, hn, rfl⟩ := of_map_ok hsuccess
  exact hn

/-- **An operation has the type of the first status of success**, numeric or not. -/
theorem answersWith_of_for {defs : Definitions}
    (he : EndpointTypes.For (fun node t => TypeExpr.ofNode (keys defs) node = .ok t) o e)
    (hv : IsFirst Response.OfSuccess o.responses v) : e.AnswersWith defs v := by
  have hfind : (o.responses.find? fun r => r.status.toList.head? = some '2') = some v :=
    (isFirst_iff_find? fun r => decide_eq_true_iff).mp hv
  have hschema : o.responseSchema = v.content.lookup jsonContent := by
    rw [Operation.responseSchema, hfind, Option.bind_some]
  have hresponse := hschema ▸ he.response
  cases hanswer : e.response with
  | none =>
    rw [hanswer] at hresponse
    refine ⟨fun _ => by rw [EndpointTypes.responseText, hanswer], fun node hnode => ?_⟩
    rw [hnode] at hresponse
    cases hresponse
  | some t =>
    rw [hanswer] at hresponse
    refine ⟨fun hnone => ?_, fun node hnode => ?_⟩
    · rw [hnone] at hresponse
      cases hresponse
    · rw [hnode] at hresponse
      cases hresponse with
      | some ht => exact ⟨t, ht, by rw [EndpointTypes.responseText, hanswer]⟩

/-- **The type of an operation is that of the first status of success.** -/
theorem types_answer (h : (s.blueprint config seed).outcome = (.ok b, log)) :
    List.Forall₂ (fun o e => ∀ v, IsFirst Response.OfSuccess o.responses v →
      e.AnswersWith s.schemas v) s.operations b.endpoints := by
  obtain ⟨ds, routes, hb, -⟩ := contents h
  exact hb.endpoints.imp fun o e he v hv => answersWith_of_for he hv

/-- **Status and type of an operation.** If its status of success is that of a response, its type is
that of the first response whose status starts with a two; and this is the same response, unless
its status has something else than digits. -/
theorem status_and_type (h : (s.blueprint config seed).outcome = (.ok b, log)) :
    List.Forall₂ (fun o e => ∃ r, Route.classify o = .ok r ∧ (∃ g ∈ b.groups, r ∈ g.routes) ∧
      ∀ w, IsFirst (fun w => w.OfSuccess ∧ w.IsNumeric) o.responses w →
        statusNumber w.status.toList = .ok r.successStatus ∧
        ∃ v, IsFirst Response.OfSuccess o.responses v ∧ e.AnswersWith s.schemas v ∧
          (v.IsNumeric → v = w)) s.operations b.endpoints := by
  refine ((List.forall₂_and_left _ _).mpr ⟨fun o ho => ho, types_answer h⟩).imp fun o e he => ?_
  obtain ⟨ho, htype⟩ := he
  obtain ⟨r, hr, g, hg, -, hin⟩ := exists_group_of_mem_operations h ho
  refine ⟨r, hr, ⟨g, hg, hin⟩, fun w hw => ⟨status_of_classify hr hw, ?_⟩⟩
  obtain ⟨v, hv⟩ := hw.exists_of_imp fun _ h => h.1
  refine ⟨v, hv, htype v hv, fun hnumeric => ?_⟩
  have hfirst : IsFirst (fun w => w.OfSuccess ∧ w.IsNumeric) o.responses v :=
    hv.of_imp ⟨hv.holds, hnumeric⟩ fun _ h => h.1
  exact hfirst.unique hw

/-- A response with this status and JSON content of this type. -/
def answer (w : String × String) : Response :=
  ⟨w.1, "ok", [(jsonContent, .primitive w.2 none none)]⟩

/-- An operation with responses of these statuses and types. -/
def answering (ws : List (String × String)) : Spec where
  info := ⟨"Answering", "1", none⟩
  servers := []
  operations := [⟨"/pets", "GET", "list", true, none, none, [], none, ws.map answer, []⟩]
  schemas := []

/-- A blueprint is made of it if its routes are. -/
theorem exists_blueprint_answering {ws : List (String × String)}
    (hroutes : ∃ routes, (answering ws).routes = .ok routes) :
    ∃ b log, ((answering ws).blueprint none none).outcome = (.ok b, log) := by
  have hnone : ∀ word, (Schema.primitive word none none).JsonValued := by
    intro word v hv
    simp at hv
  refine exists_blueprint ⟨by simp [answering], fun o ho => ?_⟩ (by simp [answering]) hroutes
  obtain rfl := List.mem_singleton.mp ho
  refine ⟨by simp, by simp, fun r hr => ?_⟩
  obtain ⟨w, -, rfl⟩ := List.mem_map.mp hr
  simp [answer, hnone]

/-- The type of its answer, if it is one of these. -/
theorem responseText_of_answersWith {defs : Definitions} {w : String × String}
    (h : e.AnswersWith defs (answer w)) :
    e.responseText = (TypeExpr.ofForm (.primitive w.2 none none)).render := by
  obtain ⟨t, ht, htext⟩ := h.typed (.primitive w.2 none none) rfl
  rw [TypeExpr.ofNode] at ht
  cases ht
  exact htext

/-- An integer, with something else in front and a range behind. -/
def integerFirst : List (String × String) :=
  [("404", "boolean"), ("200", "integer"), ("2XX", "string")]

/-- It gives both. -/
theorem integer_before_range : ∃ b log,
    ((answering integerFirst).blueprint none none).outcome = (.ok b, log) ∧
    (∃ e ∈ b.endpoints, e.responseText = "number") ∧
    ∃ g ∈ b.groups, ∃ r ∈ g.routes, r.successStatus = 200 := by
  have hroutes : ((answering integerFirst).routes.toOption.map fun _ => ()) = some () := by
    decide +kernel
  obtain ⟨routes, hroutes, -⟩ := of_toOption_map hroutes
  obtain ⟨b, log, h⟩ := exists_blueprint_answering ⟨routes, hroutes⟩
  obtain ⟨e, he, r, -, ⟨g, hg, hin⟩, hboth⟩ :=
    exists_of_mem_left (status_and_type h) List.mem_cons_self
  obtain ⟨hstatus, v, hv, htype, -⟩ := hboth (answer ("200", "integer"))
    ⟨[answer ("404", "boolean")], [answer ("2XX", "string")], rfl, by decide, by decide⟩
  obtain rfl : v = answer ("200", "integer") := hv.unique
    ⟨[answer ("404", "boolean")], [answer ("2XX", "string")], rfl, by decide, by decide⟩
  refine ⟨b, log, h, ⟨e, he, ?_⟩, g, hg, r, hin, ?_⟩
  · rw [responseText_of_answersWith htype]
    decide
  · have hcode : statusNumber (answer ("200", "integer")).status.toList = .ok 200 := by decide
    exact (Except.ok.inj (hcode.symm.trans hstatus)).symm

/-- A range in front of an integer. -/
def rangeFirst : List (String × String) :=
  [("2XX", "string"), ("200", "integer")]

/-- Here the range gives the type, and the integer the status. -/
theorem range_answers : ¬ ∀ (s : Spec) (config : Option Config) (seed : Option Seed)
    (b : Blueprint) (log : List LogEntry), (s.blueprint config seed).outcome = (.ok b, log) →
      List.Forall₂ (fun o e => ∀ w, IsFirst (fun w => w.OfSuccess ∧ w.IsNumeric) o.responses w →
        e.AnswersWith s.schemas w) s.operations b.endpoints := by
  intro hall
  have hroutes : ((answering rangeFirst).routes.toOption.map fun _ => ()) = some () := by
    decide +kernel
  obtain ⟨routes, hroutes, -⟩ := of_toOption_map hroutes
  obtain ⟨b, log, h⟩ := exists_blueprint_answering ⟨routes, hroutes⟩
  -- the only operation has one type, which would be that of either response
  obtain ⟨e, es, hinteger, -, hendpoints⟩ :=
    List.forall₂_cons_left_iff.mp (hall _ none none b log h)
  have htypes := types_answer h
  rw [hendpoints] at htypes
  obtain ⟨hstring, -⟩ := List.forall₂_cons.mp htypes
  have hnumber := responseText_of_answersWith (hinteger (answer ("200", "integer"))
    ⟨[answer ("2XX", "string")], [], rfl, by decide, by decide⟩)
  have htext := responseText_of_answersWith (hstring (answer ("2XX", "string"))
    ⟨[], [answer ("200", "integer")], rfl, by decide, by simp⟩)
  rw [hnumber] at htext
  exact absurd htext (by decide)

end Blueprint

end ApiMock
