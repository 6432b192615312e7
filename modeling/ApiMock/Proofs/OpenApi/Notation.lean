import ApiMock.Proofs.OpenApi.Loading
import ApiMock.Proofs.Text.Characters
import ApiMock.Proofs.Yaml.Values
/-!
# OpenApi — JSON documents

A file that holds a JSON text is read by the reader of YAML. Where the text keeps
to the notation that both share, what is read is what it writes in JSON
(`readDocument_shared`): the rules of `Json.Style.shared`, with all that they leave
open. A number with an exponent without a sign does not, and is read as a text
(`exponent_unread`).
-/

namespace ApiMock

namespace OpenApi

open Json (Style Piece Digits)
open Text.Utf8 (encode)

variable {files : FileTree} {path : FilePath} {text : List Char} {j : Json}

/-- What is read of a file is kept of the text that it holds. -/
theorem readText_of_read (h : files.read path = .ok (encode text)) :
    files.readText path = .ok (String.ofList (Json.keep text)) := by
  have hdecode : Text.Utf8.decode? (encode text) = some text := Text.Utf8.decode?_encode text
  rw [FileTree.readText, h]
  dsimp only [bind, Except.bind]
  rw [hdecode]
  rfl

/-- **A JSON text in the shared notation is read from a file as the value that it writes**, the
one that a decoder of JSON gives. -/
theorem readDocument_shared (h : Style.shared.Renders j text)
    (hfile : files.read path = .ok (encode text)) :
    Json.parse text = some j ∧ readDocument files path = .ok j.decoded :=
  ⟨Json.Style.shared_legal.parse h, readDocument_of_load (readText_of_read hfile)
    (Yaml.load_kept h.kept)⟩

/-- A tree with one file. -/
def withJson (text : List Char) : FileTree := ⟨[(["a.json"], .file (encode text))]⟩

/-- Its path. -/
def jsonPath : FilePath := ⟨"", ["a.json"]⟩

/-- A number with a fraction and a signed exponent, in an object behind which a line ends. -/
theorem signed_read :
    let text := "\x7b\x22a\x22: 1.0e+5\x7d\r\n".toList
    let number := Binary64.ofDecimal false 10 4
    Json.parse text = some (.obj [("a", .float number)]) ∧
      readDocument (withJson text) jsonPath = .ok (.map [(.str "a", .scalar (.float number))]) := by
  intro text number
  have hdigit : ∀ d ∈ ['1', '0', '5'], Digits [d] := by simp [Digits, Text.IsRun]
  have hnumber : Json.Bare (.float number) "1.0e+5".toList :=
    .real (hdigit '1' (by simp)) rfl (hdigit '0' (by simp))
      (.positive (.inl rfl) (hdigit '5' (by simp)))
  have hletter : Piece 97 ['a'] :=
    @Piece.plain 'a' (by decide) (by decide) (by decide) (by decide) (by decide)
  have hkey : Json.Quoted "a" "\x22a\x22".toList := ⟨[97], [['a']], .cons hletter .nil, rfl, rfl⟩
  have hempty : Style.shared.Gap [] := nofun
  have hspace : Style.shared.Gap [' '] := fun c hc => .inl (List.mem_singleton.mp hc)
  have hbreak : Style.shared.Gap ['\r', '\n'] := by
    intro c hc
    simp only [List.mem_cons, List.not_mem_nil, or_false] at hc
    exact .inr hc.symm
  have hentry : Style.shared.Writes (.entry "a" (.float number)) "\x22a\x22: 1.0e+5".toList :=
    @Style.Writes.entry Style.shared "a" _ "\x22a\x22".toList [] [' '] _ hkey
      ⟨nofun, by decide⟩ hspace (.bare hnumber)
  have hobject : Style.shared.Writes (.value (.obj [("a", .float number)]))
      "\x7b\x22a\x22: 1.0e+5\x7d".toList :=
    @Style.Writes.object Style.shared _ [] _ hempty (.lastEntry hentry hempty)
  exact readDocument_shared ⟨[], _, ['\r', '\n'], hempty, hobject, hbreak, rfl⟩ rfl

/-- The one entry of an object, if it is a number. -/
def soleNumber? (j : Json) : Option (String × Binary64) :=
  match j with
  | .obj [(key, .float x)] => some (key, x)
  | _ => none

/-- The one entry of a mapping, if it is a text. -/
def soleText? (d : Data) : Option (String × String) :=
  match d with
  | .map [(.str key, .scalar (.str s))] => some (key, s)
  | _ => none

theorem eq_of_soleNumber? {key : String} {x : Binary64} (h : soleNumber? j = some (key, x)) :
    j = .obj [(key, .float x)] := by
  rw [soleNumber?.eq_def] at h
  split at h <;> cases h
  rfl

theorem eq_of_soleText? {d : Data} {key s : String} (h : soleText? d = some (key, s)) :
    d = .map [(.str key, .str s)] := by
  rw [soleText?.eq_def] at h
  split at h <;> cases h
  rfl

/-- **An exponent without a sign is not read as a number**, though JSON allows it. -/
theorem exponent_unread :
    let text := "\x7b\x22a\x22: 1e5\x7d".toList
    let j : Json := .obj [("a", .float (Binary64.ofDecimal false 1 5))]
    Json.parse text = some j ∧ (withJson text).read jsonPath = .ok (encode text) ∧
      readDocument (withJson text) jsonPath = .ok (.map [(.str "a", .str "1e5")]) ∧
      readDocument (withJson text) jsonPath ≠ .ok j.decoded := by
  intro text j
  have hparse : (Json.parse text).bind soleNumber? =
      some ("a", Binary64.ofDecimal false 1 5) := by decide +kernel
  have hload : (readDocument (withJson text) jsonPath).toOption.bind soleText? =
      some ("a", "1e5") := by decide +kernel
  obtain ⟨k, hk, hnumber⟩ := Option.bind_eq_some_iff.mp hparse
  obtain ⟨d, hd, htext⟩ := Sequence.of_toOption_bind hload
  rw [eq_of_soleNumber? hnumber] at hk
  rw [eq_of_soleText? htext] at hd
  refine ⟨hk, rfl, hd, fun heq => ?_⟩
  cases hd.symm.trans heq

end OpenApi

end ApiMock
