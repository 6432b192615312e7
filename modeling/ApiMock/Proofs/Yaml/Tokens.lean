import ApiMock.Proofs.Sequence
import ApiMock.Yaml.Lexer
/-!
# Yaml — what stops the cutting of a text

A text is cut into tokens up to the first failure, which stands as a token
of its own behind those in front of it. There are two causes: the text is no
YAML, or an escape in it names a number that no character has
(`cutFault_of_broken`). Each function of the lexer is taken once; a step of
it keeps that no token stands for a failure, or fails for one of these
causes, and the rest is induction on the steps.
-/

namespace ApiMock

namespace Yaml

open Sequence

/-- What stops the cutting: the text is no YAML, or an escape in it stands for no
character. -/
inductive CutFault : Failure → Prop where
  | form : CutFault .notYaml
  | code {n : Nat} {f : Failure} (h : Quoted.ofCode n = .error f) : CutFault f

attribute [simp] CutFault.form

variable {c : Cursor} {fuel : List Char}

/-! ## Properties, blocks and quotes

A function fails as those before it do, so each comes from the simp set. -/

namespace Property

@[simp] theorem name_fails : FailsOnly CutFault (name c) := by
  simp [name]

@[simp] theorem anchorName_fails : FailsOnly CutFault (anchorName c) := by
  simp only [anchorName, failsOnly_bind, name_fails, true_and]
  intro a _
  split <;> simp

@[simp] theorem tagText_fails : FailsOnly CutFault (tagText fuel c) := by
  fun_induction tagText fuel c <;> simp_all

@[simp] theorem tagPart_fails : FailsOnly CutFault (tagPart c) := by
  simp [tagPart]

@[simp] theorem handle_fails : FailsOnly CutFault (handle c) := by
  simp [handle]

@[simp] theorem writtenTag_fails : FailsOnly CutFault (writtenTag c) := by
  simp [writtenTag]

@[simp] theorem tag_fails : FailsOnly CutFault (tag c) := by
  simp [tag]

@[simp] theorem versionNumber_fails : FailsOnly CutFault (versionNumber c) := by
  simp [versionNumber]

@[simp] theorem versionDirective_fails : FailsOnly CutFault (versionDirective c) := by
  simp [versionDirective]

@[simp] theorem handleDirective_fails : FailsOnly CutFault (handleDirective c) := by
  simp [handleDirective]

@[simp] theorem named_fails {n : String} : FailsOnly CutFault (named n c) := by
  simp [named]

@[simp] theorem directive_fails : FailsOnly CutFault (directive c) := by
  simp [directive]

end Property

namespace Block

@[simp] theorem indentation_fails : FailsOnly CutFault (indentation c) := by
  unfold indentation
  split <;> simp

@[simp] theorem header_fails : FailsOnly CutFault (header c) := by
  unfold header
  split
  · simp
  · simp only [failsOnly_bind, indentation_fails, true_and]
    rintro ⟨_ | _, _⟩ _
    · simp
    · dsimp only
      split <;> simp

@[simp] theorem restOfLine_fails : FailsOnly CutFault (restOfLine c) := by
  simp [restOfLine]

@[simp] theorem read_fails {isFolded : Bool} {least : Nat} :
    FailsOnly CutFault (read isFolded least c) := by
  simp [read]

end Block

namespace Quoted

@[simp] theorem breaks_fails : FailsOnly CutFault (breaks fuel c) := by
  fun_induction breaks fuel c <;> simp_all

@[simp] theorem blanks_fails : FailsOnly CutFault (blanks c) := by
  unfold blanks
  split
  split <;> simp

@[simp] theorem ofCode_fails {n : Nat} : FailsOnly CutFault (ofCode n) :=
  fun _ h => .code h

@[simp] theorem escape_fails : FailsOnly CutFault (escape c) := by
  unfold escape
  split
  · simp
  · split
    · simp
    · dsimp only
      split <;> simp
    · simp
    · simp

@[simp] theorem step_fails {isDouble : Bool} : FailsOnly CutFault (step isDouble c) := by
  unfold step
  split <;> simp

@[simp] theorem body_fails {isDouble : Bool} : FailsOnly CutFault (body isDouble fuel c) := by
  induction fuel generalizing c with
  | nil => simp [body]
  | cons _ fuel ih =>
    simp only [body, failsOnly_bind, step_fails, true_and]
    rintro ⟨_ | cs, d⟩ _
    · simp
    · simp [ih]

@[simp] theorem read_fails {isDouble : Bool} : FailsOnly CutFault (read isDouble c) := by
  simp [read]

end Quoted

/-! ## The lexer -/

/-- The token stands for no failure. -/
def Token.IsProper (t : Token) : Prop :=
  ∀ f, t ≠ .broken f

namespace Lexer

variable {l : Lexer} {t : Token}

/-- No token stands for a failure. -/
def Whole (l : Lexer) : Prop :=
  ∀ f, .broken f ∉ l.tokens

theorem whole_emit (h : l.Whole) (ht : t.IsProper) : (l.emit t).Whole := by
  rintro f (_ | ⟨_, hf⟩)
  · exact ht f rfl
  · exact h f hf

theorem whole_emitBefore {n : Nat} (h : l.Whole) (ht : t.IsProper) :
    (l.emitBefore n t).Whole := by
  intro f hf
  rcases List.mem_append.mp hf with hf | hf
  · exact h f (List.mem_of_mem_take hf)
  · rcases List.mem_cons.mp hf with hf | hf
    · exact ht f hf.symm
    · exact h f (List.mem_of_mem_drop hf)

theorem whole_foldl_emit {α : Type} {xs : List α} (h : l.Whole) (ht : t.IsProper) :
    (xs.foldl (fun l _ => l.emit t) l).Whole := by
  induction xs generalizing l with
  | nil => exact h
  | cons _ _ ih => exact ih (whole_emit h ht)

/-- A step from a state in which no token stands for a failure. -/
abbrev Goes (x : Except Failure Lexer) : Prop := Ends CutFault Whole x

theorem whole_toNextToken (h : l.Whole) : (toNextToken fuel l).Whole := by
  induction fuel generalizing l with
  | nil => exact h
  | cons _ _ ih =>
    rw [toNextToken]
    split
    · exact ih h
    · exact h

theorem whole_closeBlocks {column : Nat} (h : l.Whole) : (l.closeBlocks column).Whole :=
  whole_foldl_emit h nofun

theorem whole_closeAllBlocks (h : l.Whole) : l.closeAllBlocks.Whole :=
  whole_foldl_emit h nofun

theorem whole_openBlock (h : l.Whole) (ht : t.IsProper) : (l.openBlock t).Whole := by
  rw [openBlock]
  split
  · exact whole_emit h ht
  · exact h

theorem dropStale_goes (h : l.Whole) : Goes l.dropStale := by
  rw [dropStale]
  split
  · exact .form
  · exact h

theorem dropKey_goes (h : l.Whole) : Goes l.dropKey := by
  rw [dropKey]
  split
  · exact .form
  · exact h

theorem noteKey_goes (h : l.Whole) : Goes l.noteKey := by
  rw [noteKey]
  split
  · exact (dropKey_goes h).bind fun m hm => hm
  · exact h

/-- Where blocks are left at the end of a document. -/
theorem leave_goes (h : l.Whole) : Goes (if l.inFlow then l else l.closeAllBlocks).dropKey := by
  split
  · exact dropKey_goes h
  · exact dropKey_goes (whole_closeAllBlocks h)

theorem endText_goes (h : l.Whole) : Goes l.endText :=
  (leave_goes h).bind fun _ hm => whole_emit hm nofun

theorem documentToken_goes (h : l.Whole) (ht : t.IsProper) : Goes (l.documentToken t c) :=
  (leave_goes h).bind fun _ hm => whole_emit hm ht

theorem openFlow_goes (h : l.Whole) (ht : t.IsProper) : Goes (l.openFlow t) :=
  (noteKey_goes h).bind fun _ hm => whole_emit hm ht

theorem closeFlow_goes (h : l.Whole) (ht : t.IsProper) : Goes (l.closeFlow t) := by
  refine (dropKey_goes h).bind fun m hm => ?_
  split
  · exact .form
  · exact whole_emit hm ht

theorem flowEntry_goes (h : l.Whole) : Goes l.flowEntry :=
  (dropKey_goes h).bind fun _ hm => whole_emit hm nofun

theorem blockMark_goes (h : l.Whole) (ht : t.IsProper) : Goes (l.blockMark t) := by
  rw [blockMark]
  split
  · exact h
  · split
    · exact whole_openBlock h ht
    · exact .form

theorem blockEntry_goes (h : l.Whole) : Goes l.blockEntry :=
  (blockMark_goes (t := .blockSequenceStart) h nofun).bind fun _ hm =>
    (dropKey_goes hm).bind fun _ hn => whole_emit hn nofun

theorem keyMark_goes (h : l.Whole) : Goes l.keyMark :=
  (blockMark_goes (t := .blockMappingStart) h nofun).bind fun _ hm =>
    (dropKey_goes hm).bind fun _ hn => whole_emit hn nofun

theorem valueMark_goes (h : l.Whole) : Goes l.valueMark := by
  rw [valueMark]
  split
  · rename_i k _
    have hkey : ({ l with here := none, keyAllowed := false }.emitBefore k.number .key).Whole :=
      whole_emitBefore h nofun
    refine whole_emit (l := moveTo _ _) ?_ nofun
    dsimp only
    split
    · exact whole_emitBefore (t := .blockMappingStart) hkey nofun
    · exact hkey
  · exact (blockMark_goes (t := .blockMappingStart) h nofun).bind fun _ hm => whole_emit hm nofun

theorem content_goes {read : Cursor → Except Failure (Token × Cursor)} (h : l.Whole)
    (hread : ∀ c, Ends CutFault (fun r => r.1.IsProper) (read c)) : Goes (l.content read) :=
  (noteKey_goes h).bind fun _ hm => (hread _).bind fun _ ht => whole_emit hm ht

theorem plainScalar_goes (h : l.Whole) : Goes l.plainScalar :=
  (noteKey_goes h).bind fun _ hm => whole_emit hm nofun

theorem blockScalar_goes {isFolded : Bool} (h : l.Whole) : Goes (l.blockScalar isFolded) :=
  (dropKey_goes h).bind fun _ hm => Block.read_fails.bind fun _ _ => whole_emit hm nofun

theorem tokenFrom_goes {ch : Char} (h : l.Whole) : Goes (l.tokenFrom ch) := by
  unfold tokenFrom
  refine .ite (Property.directive_fails.bind fun _ _ => documentToken_goes h nofun) <|
    .ite (documentToken_goes h nofun) <| .ite (documentToken_goes h nofun) <|
    .ite (openFlow_goes h nofun) <| .ite (openFlow_goes h nofun) <|
    .ite (closeFlow_goes h nofun) <| .ite (closeFlow_goes h nofun) <| .ite (flowEntry_goes h) <|
    .ite (blockEntry_goes h) <| .ite (keyMark_goes h) <| .ite (valueMark_goes h) <| ?_
  refine .ite (content_goes h fun c => Property.anchorName_fails.bind fun _ _ => nofun) <|
    .ite (content_goes h fun c => Property.anchorName_fails.bind fun _ _ => nofun) <|
    .ite (content_goes h fun c => Property.tag_fails.bind fun _ _ => nofun) <|
    .ite (blockScalar_goes h) <| .ite (blockScalar_goes h) <|
    .ite (content_goes h fun c => Quoted.read_fails.bind fun _ _ => nofun) <|
    .ite (plainScalar_goes h) .form

theorem step_goes (h : l.Whole) : Goes l.step := by
  refine (dropStale_goes (whole_toNextToken h)).bind fun m hm => ?_
  have hclosed : (if m.inFlow then m else m.closeBlocks m.cursor.column).Whole := by
    split
    · exact hm
    · exact whole_closeBlocks hm
  dsimp only
  split
  · exact endText_goes hclosed
  · exact tokenFrom_goes hclosed

/-- The token at which a run stops. -/
theorem cutFault_of_mem_run {f : Failure} (h : l.Whole) (hf : .broken f ∈ run fuel l) :
    CutFault f := by
  induction fuel generalizing l with
  | nil => exact absurd (List.mem_reverse.mp hf) (h f)
  | cons _ _ ih =>
    rw [run] at hf
    have hstep := step_goes h
    split at hf
    · rename_i g hg
      rw [hg] at hstep
      rw [upToFailure] at hf
      rcases List.mem_append.mp hf with hf | hf
      · exact absurd (List.mem_reverse.mp (List.mem_of_mem_take hf)) (h f)
      · cases List.mem_singleton.mp hf
        exact hstep
    · rename_i next hnext
      rw [hnext] at hstep
      split at hf
      · exact absurd (List.mem_reverse.mp hf) (hstep f)
      · exact ih hstep hf

end Lexer

/-- **A failure among the tokens of a text** is one of the two. -/
theorem cutFault_of_broken {text : List Char} {f : Failure} (h : .broken f ∈ tokens text) :
    CutFault f :=
  Lexer.cutFault_of_mem_run (fun _ => List.not_mem_nil) h

end Yaml

end ApiMock
