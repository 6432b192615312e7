import ApiMock.Proofs.Yaml.Merging
import ApiMock.Proofs.Yaml.Reading
import ApiMock.Proofs.Yaml.Scalars
import ApiMock.Yaml.Value
/-!
# Yaml — what a text is refused for

A text has a value, is no YAML, or is `Refused`: it is YAML, but an escape
in it stands for no character, or one of its scalars is not what its tag
says (`load_fails`). No limit on rounds shows: reading and freeing have
enough of them.

Making leaves the nodes what they are but for the entries that freeing moves
(`Makes`), so the scalar that is refused is one of the document.
-/

namespace ApiMock

namespace Yaml

open Sequence

/-! ## Making the nodes -/

namespace Making

variable {α β : Type} {g : Graph} {x : Making α} {f : α → Making β}

/-- What stops the making of a document's nodes: a node is no part of a value, or a scalar
is refused. Its entries may have come in from other mappings by then. -/
def Fault (g : Graph) (f : Failure) : Prop :=
  f = .notYaml ∨ ∃ h n, g.Alike h ∧ h.scalar? n = .error f

/-- A step that fails only for what stands in the document `g`, and leaves its nodes what
they are. -/
def Makes (g : Graph) (x : Making α) : Prop :=
  ∀ w : Workshop, g.Alike w.graph → Ends (Fault g) (fun p => g.Alike p.2.graph) (x.run w)

namespace Makes

theorem pure {a : α} : Makes g (Pure.pure a : Making α) := fun _ hw => hw

theorem refuse : Makes g (throw .notYaml : Making α) := fun _ _ => .inl rfl

theorem bind (h : Makes g x) (hf : ∀ a, Makes g (f a)) : Makes g (x >>= f) := fun w hw =>
  (h w hw).bind fun p hp => hf p.1 p.2 hp

theorem update {change : Workshop → Workshop}
    (h : ∀ w, g.Alike w.graph → g.Alike (change w).graph) : Makes g (modify change) := h

/-- The state is looked at; its nodes are those of the document. -/
theorem state {f : Workshop → Making β} (h : ∀ w, g.Alike w.graph → Makes g (f w)) :
    Makes g (get >>= f) := fun w hw => h w hw w hw

/-- A step without a state. -/
theorem lift {y : Except Failure α} {f : α → Making β} {Q : α → Prop} (h : Ends (Fault g) Q y)
    (hf : ∀ a, Q a → Makes g (f a)) : Makes g ((liftM y : Making α) >>= f) := by
  intro w hw
  cases y with
  | error e => exact h
  | ok a => exact hf a h w hw

theorem mapM {γ : Type} {step : γ → Making α} (h : ∀ c, Makes g (step c)) (cs : List γ) :
    Makes g (cs.mapM step) := by
  induction cs with
  | nil => exact pure
  | cons c rest ih =>
    rw [List.mapM_cons]
    exact (h c).bind fun _ => ih.bind fun _ => pure

theorem forM {γ : Type} {step : γ → Making PUnit} (h : ∀ c, Makes g (step c)) (cs : List γ) :
    Makes g (cs.forM step) := by
  induction cs with
  | nil => exact pure
  | cons c rest ih => exact (h c).bind fun _ => ih

end Makes

variable {n : NodeId}

theorem note_makes {m : Made} : Makes g (note n m) :=
  Makes.update fun _ hw => hw

theorem scalar?_ends {h : Graph} (hh : g.Alike h) :
    Ends (Fault g) (fun _ => True) (h.scalar? n) := by
  cases hs : h.scalar? n with
  | error f => exact .inr ⟨h, n, hh, hs⟩
  | ok s => trivial

theorem makeNew_makes : Makes g (makeNew n) := by
  refine .state fun w hw => .lift (scalar?_ends hw) fun s _ => ?_
  cases s with
  | some s => exact note_makes.bind fun _ => .pure
  | none =>
    refine note_makes.bind fun _ => ?_
    exact Makes.bind (Makes.update fun _ hw => hw) fun _ => Makes.pure

theorem make_makes : Makes g (make n) := by
  refine .state fun w _ => ?_
  split
  · exact .pure
  · exact makeNew_makes

theorem makeKey_makes : Makes g (makeKey n) := by
  refine make_makes.bind fun m => ?_
  split
  · exact .pure
  · exact .refuse

theorem makeEntry_makes {e : NodeEntry} : Makes g (makeEntry e) :=
  makeKey_makes.bind fun _ => make_makes.bind fun _ => .pure

theorem makeEntries_makes : Makes g (makeEntries n) := by
  refine .state fun w hw => ?_
  have hfree : Ends (Fault g) (fun h => g.Alike h) (w.graph.free n) :=
    Graph.free_ends.mono (fun _ hf => .inl hf) fun _ hh => hw.trans hh.1.toAlike
  refine .lift hfree fun h hh => (Makes.update fun _ _ => hh).bind fun _ => ?_
  exact (Makes.mapM (fun _ => makeEntry_makes) _).bind fun _ => .pure

theorem makeSole_makes : Makes g (makeSole n) := by
  refine .state fun w _ => ?_
  split
  · exact make_makes.bind fun _ => make_makes.bind fun _ => .pure
  · exact .refuse

theorem fill_makes : Makes g (fill n) := by
  refine .state fun w _ => ?_
  dsimp only
  split
  · exact (Makes.forM (fun _ => make_makes.bind fun _ => .pure) _).bind fun _ => note_makes
  · exact makeEntries_makes.bind fun _ => note_makes
  · exact makeEntries_makes.bind fun _ => note_makes
  · exact (Makes.mapM (fun _ => makeSole_makes) _).bind fun _ => note_makes
  · exact (Makes.mapM (fun _ => makeSole_makes) _).bind fun _ => note_makes
  · exact .refuse

theorem fillAll_makes {rounds : Nat} : Makes g (fillAll rounds) := by
  induction rounds with
  | zero => exact .pure
  | succ rounds ih =>
    refine .state fun w _ => ?_
    split
    · exact .pure
    · refine Makes.bind (Makes.update fun _ hw => hw) fun _ => ?_
      exact (Makes.forM (fun _ => fill_makes) _).bind fun _ => ih

end Making

/-- What a document without a value is refused for. -/
theorem value_fails {d : Document} : FailsOnly (Making.Fault d.graph) d.value := by
  have hmaking : Making.Makes d.graph d.making :=
    Making.make_makes.bind fun _ => Making.fillAll_makes
  intro f hf
  have := hmaking ⟨d.graph, .replicate d.graph.size none, []⟩ .refl
  rw [Document.value] at hf
  rcases hx : d.making.run ⟨d.graph, .replicate d.graph.size none, []⟩ with g | p
  · rw [hx] at hf this
    cases hf
    exact this
  · rw [hx] at hf
    cases hf

/-! ## Texts -/

/-- Why a text has no value although it is YAML: an escape in it stands for no character, or
a scalar of its document is not what its tag says. -/
inductive Refused (text : String) : Failure → Prop where
  | code {n : Nat} {f : Failure} (hf : .broken f ∈ tokens text.toList)
      (hn : Quoted.ofCode n = .error f) : Refused text f
  | scalar {d : Document} {g : Graph} {n : NodeId} {f : Failure}
      (hd : Document.ofText? text.toList = .ok (some d)) (hg : d.graph.Alike g)
      (hn : g.scalar? n = .error f) (hf : f ≠ .notYaml) : Refused text f

/-- **A text without a value** is no YAML, or one of these. -/
theorem load_fails {text : String} :
    FailsOnly (fun f => f = .notYaml ∨ Refused text f) (load text) := by
  rw [load]
  split
  · exact failsOnly_throw.mpr (.inl rfl)
  · rw [failsOnly_bind]
    refine ⟨fun f hf => ?_, fun d hd => ?_⟩
    · rcases ofText?_fails f hf with rfl | hbroken
      · exact .inl rfl
      · cases cutFault_of_broken hbroken with
        | form => exact .inl rfl
        | code hn => exact .inr (.code hbroken hn)
    · cases d with
      | none => exact failsOnly_pure
      | some d =>
        intro f hf
        rcases value_fails f hf with rfl | ⟨g, n, hg, hn⟩
        · exact .inl rfl
        · by_cases hyaml : f = .notYaml
          · exact .inl hyaml
          · exact .inr (.scalar hd hg hn hyaml)

/-- Whatever is refused, the failure is one of a scalar. -/
theorem Refused.scalarFault {text : String} {f : Failure} (h : Refused text f) : ScalarFault f := by
  cases h with
  | code _ hn => exact ofCode_fault f hn
  | scalar _ _ hn _ => exact Graph.scalar?_fails f hn

theorem Refused.ne_notYaml {text : String} {f : Failure} (h : Refused text f) : f ≠ .notYaml := by
  cases h with
  | code _ hn =>
    rintro rfl
    simp only [Quoted.ofCode] at hn
    split at hn
    · cases hn
    · split at hn <;> cases hn
  | scalar _ _ _ hf => exact hf

end Yaml

end ApiMock
