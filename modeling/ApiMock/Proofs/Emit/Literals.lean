import ApiMock.Proofs.Blueprint.Names
import ApiMock.Proofs.Emit.Paths
import ApiMock.Proofs.TypeScript.Quoted
/-!
# Emit — the literals that hold a route

A method throws one text that holds its method and its path, and logs two.
They stand between the marks as they are. So such a literal is read as the
text exactly if nothing in the method and in the path means something
else in it (`literals_kept`); the methods of a document never do.
-/

namespace ApiMock

namespace Emit

open TypeScript

variable {document : Data} {s : Spec} {config : Option Config} {seed : Option Seed} {b : Blueprint}
  {log : List LogEntry} {g : Group} {r : Route}

/-- A literal in a line. -/
structure Quotation where
  before : String
  quote : Quote
  text : String
  behind : String

namespace Quotation

/-- Its line. -/
def line (l : Quotation) : String :=
  l.before ++ String.singleton l.quote.mark ++ l.text ++ String.singleton l.quote.mark ++ l.behind

/-- From behind its opening mark on, a literal is read as its text, up to the closing mark and
whatever follows. -/
def Kept (l : Quotation) (rest : List Char) : Prop :=
  Reads l.quote (l.text.toList ++ l.quote.mark :: rest) (units l.text.toList) rest

theorem kept_iff {l : Quotation} {rest : List Char} :
    l.Kept rest ↔ Plain l.quote l.text.toList :=
  reads_iff

end Quotation

/-- What a method throws when it fails by chance. -/
def failureText (r : Route) : String := "Simulated failure for " ++ r.method ++ " " ++ r.path

/-- What a method logs first. -/
def callText (r : Route) : String := "[" ++ r.method ++ "] " ++ r.path

/-- What a method logs when it fails. -/
def errorText (r : Route) : String := callText r ++ " - Error:"

/-- The literals of a method that hold its route. -/
def quotations (r : Route) : List Quotation := [
  ⟨"        throw new Error(", .single, failureText r, ");"⟩,
  ⟨"        console.log(", .template, callText r,
    ", \x7b " ++ String.intercalate ", " r.loggedNames ++ " \x7d);"⟩,
  ⟨"        console.error(", .template, errorText r, ", apiError);"⟩]

/-- Parts of a line that reach over the marks of a literal. -/
theorem join_parts {before mark lead trail behind opened closed : String} (inner : String)
    (hopened : opened = before ++ mark ++ lead) (hclosed : closed = trail ++ mark ++ behind) :
    before ++ mark ++ (lead ++ inner ++ trail) ++ mark ++ behind = opened ++ inner ++ closed := by
  rw [hopened, hclosed]
  simp only [String.append_assoc]

/-- The lines of these literals, as a method has them. -/
theorem lines_quotations (r : Route) : (quotations r).map Quotation.line = [
    "        throw new Error('Simulated failure for " ++ r.method ++ " " ++ r.path ++ "');",
    "        console.log(`[" ++ r.method ++ "] " ++ r.path ++ "`, \x7b " ++
      String.intercalate ", " r.loggedNames ++ " \x7d);",
    "        console.error(`[" ++ r.method ++ "] " ++ r.path ++ " - Error:`, apiError);"] := by
  have hthrow : "        throw new Error('Simulated failure for " =
      "        throw new Error(" ++ "'" ++ "Simulated failure for " := by decide +kernel
  have hthrown : "');" = "" ++ "'" ++ ");" := by decide +kernel
  have hlog : "        console.log(`[" = "        console.log(" ++ "`" ++ "[" := by decide +kernel
  have hlogged : "`, \x7b " = "" ++ "`" ++ ", \x7b " := by decide +kernel
  have herror : "        console.error(`[" = "        console.error(" ++ "`" ++ "[" := by
    decide +kernel
  have herrored : " - Error:`, apiError);" = " - Error:" ++ "`" ++ ", apiError);" := by
    decide +kernel
  have hsingle : String.singleton Quote.single.mark = "'" := rfl
  have htemplate : String.singleton Quote.template.mark = "`" := rfl
  have hfirst := join_parts (r.method ++ " " ++ r.path) hthrow hthrown
  have hsecond := congrArg (· ++ (String.intercalate ", " r.loggedNames ++ " \x7d);"))
    (join_parts (r.method ++ "] " ++ r.path) hlog hlogged)
  have hthird := join_parts (r.method ++ "] " ++ r.path) herror herrored
  dsimp only [quotations, List.map, Quotation.line, failureText, callText, errorText]
  simp only [String.append_assoc, String.append_empty] at hfirst hsecond hthird
  simp only [hsingle, htemplate, String.append_assoc]
  exact congrArg₂ List.cons hfirst (congrArg₂ List.cons hsecond (congrArg₂ List.cons hthird rfl))

/-- They are lines of the method. -/
theorem line_mem_method {l : Quotation} (hl : l ∈ quotations r) : l.line ∈ method r := by
  have hall : ∀ line ∈ (quotations r).map Quotation.line, line ∈ methodHead r ++ methodTail r := by
    rw [lines_quotations, List.forall_mem_cons, List.forall_mem_cons, List.forall_mem_singleton]
    simp only [methodHead, methodTail, List.mem_append, List.mem_cons, true_or, or_true, and_true]
  have hline := hall l.line (List.mem_map_of_mem hl)
  rw [method, List.mem_append, List.mem_append, List.mem_append]
  exact (List.mem_append.mp hline).imp (fun h => .inl (.inr h)) id

/-! ## When they are kept -/

/-- A text with two others in it is plain if these are, and it is around them. -/
theorem plain_around {q : Quote} {before between x y : String} (hbefore : Plain q before.toList)
    (hbetween : Plain q between.toList) (hopens : before.toList.getLast? ≠ some '$')
    (hfirst : ∀ ys, (between.toList ++ ys).head? ≠ some '\x7b')
    (hlast : between.toList.getLast? ≠ some '$') :
    Plain q (before ++ x ++ between ++ y).toList ↔ Plain q x.toList ∧ Plain q y.toList := by
  simp only [String.toList_append, List.append_assoc]
  rw [plain_append fun h => hopens h.1, plain_append fun h => hfirst _ h.2,
    plain_append fun h => hlast h.1]
  exact ⟨fun h => ⟨h.2.1, h.2.2.2⟩, fun h => ⟨hbefore, h.1, hbetween, h.2⟩⟩

/-- **The texts are plain exactly if method and path are.** -/
theorem plain_text {l : Quotation} (hl : l ∈ quotations r) : Plain l.quote l.text.toList ↔
    Plain l.quote r.method.toList ∧ Plain l.quote r.path.toList := by
  have hfailure : Plain .single (failureText r).toList ↔
      Plain .single r.method.toList ∧ Plain .single r.path.toList :=
    plain_around (by decide) (by decide) (by decide) (by simp) (by decide)
  have hcall : Plain .template (callText r).toList ↔
      Plain .template r.method.toList ∧ Plain .template r.path.toList :=
    plain_around (by decide) (by decide) (by decide) (by simp) (by decide)
  have herror : Plain .template (errorText r).toList ↔
      Plain .template r.method.toList ∧ Plain .template r.path.toList := by
    dsimp only [errorText]
    rw [String.toList_append, plain_append (by simp), hcall]
    exact and_iff_left (by decide)
  have hall : ∀ l ∈ quotations r, Plain l.quote l.text.toList ↔
      Plain l.quote r.method.toList ∧ Plain l.quote r.path.toList := by
    dsimp only [quotations]
    rw [List.forall_mem_cons, List.forall_mem_cons, List.forall_mem_singleton]
    exact ⟨hfailure, hcall, herror⟩
  exact hall l hl

/-- The methods of a document are plain in any literal. -/
theorem plain_method {m : String} (h : m ∈ Spec.methods.map Naming.upper) (q : Quote) :
    Plain q m.toList := by
  have hall : ∀ m ∈ Spec.methods.map Naming.upper,
      Plain .single m.toList ∧ Plain .template m.toList := by decide +kernel
  cases q
  · exact (hall m h).1
  · exact (hall m h).2

/-- A line of the method of a route is a line of its client. -/
theorem mem_clientLines {line : String} (hr : r ∈ g.routes) (hline : line ∈ method r) :
    line ∈ clientLines g := by
  rw [clientLines, List.mem_append, List.mem_append, List.mem_append, List.mem_append]
  exact .inl (.inl (.inl (.inr (List.mem_flatMap.mpr ⟨r, hr, hline⟩))))

/-- **Which literals keep their route.** The three literals that hold a method and a path are
lines of the client. Whatever follows, such a literal is read as its text exactly if the method
and the path are plain in it; for a document, if the path is. -/
theorem literals_kept (h : (s.blueprint config seed).outcome = (.ok b, log)) (hg : g ∈ b.groups)
    (hr : r ∈ g.routes) : ∀ l ∈ quotations r, l.line ∈ clientLines g ∧
      (∀ rest, l.Kept rest ↔ Plain l.quote r.method.toList ∧ Plain l.quote r.path.toList) ∧
      ∀ document, Spec.parse document = .ok s →
        ∀ rest, l.Kept rest ↔ Plain l.quote r.path.toList := by
  intro l hl
  refine ⟨mem_clientLines hr (line_mem_method hl), fun rest => ?_, fun document hs rest => ?_⟩
  · rw [Quotation.kept_iff, plain_text hl]
  · rw [Quotation.kept_iff, plain_text hl]
    exact and_iff_right (plain_method (Blueprint.method_of_mem_groups hs h hg hr) l.quote)

/-- A dollar sign and a brace do no harm where they are apart. -/
theorem costs_kept : ∃ b log,
    ((placed "Costs" "Lists them" "/costs/$/\x7bid\x7d").blueprint none none).outcome =
      (.ok b, log) ∧
      ∃ g r, b.groups = [g] ∧ g.routes = [r] ∧ r.path = "/costs/$/\x7bid\x7d" ∧
        ∀ l ∈ quotations r, l.line ∈ clientLines g ∧ ∀ rest, l.Kept rest := by
  obtain ⟨b, log, houtcome, -, g, r, hgroups, hroutes, hmethod, hpath⟩ :=
    exists_placed "Costs" "Lists them" "/costs/$/\x7bid\x7d"
  refine ⟨b, log, houtcome, g, r, hgroups, hroutes, hpath, fun l hl => ?_⟩
  obtain ⟨hline, hkept, -⟩ := literals_kept houtcome (hgroups ▸ List.mem_singleton_self g)
    (hroutes ▸ List.mem_singleton_self r) l hl
  refine ⟨hline, fun rest => (hkept rest).mpr ?_⟩
  rw [hmethod, hpath]
  cases l.quote <;> decide

/-- Not every literal keeps its route: a path can close them all. -/
theorem literals_broken : ¬ ∀ (s : Spec) (config : Option Config) (seed : Option Seed)
    (b : Blueprint) (log : List LogEntry), (s.blueprint config seed).outcome = (.ok b, log) →
      ∀ g ∈ b.groups, ∀ r ∈ g.routes, ∃ l ∈ quotations r, ∃ rest, l.Kept rest := by
  intro hall
  obtain ⟨b, log, houtcome, -, g, r, hgroups, hroutes, hmethod, hpath⟩ :=
    exists_placed "Pets" "Lists them" "/it's/`now`"
  obtain ⟨l, hl, rest, hkept⟩ := hall _ none none b log houtcome g
    (hgroups ▸ List.mem_singleton_self g) r (hroutes ▸ List.mem_singleton_self r)
  rw [Quotation.kept_iff, plain_text hl, hpath] at hkept
  revert hkept
  cases l.quote <;> exact fun hkept => absurd hkept.2 (by decide)

end Emit

end ApiMock
