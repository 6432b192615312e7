import ApiMock.Data.Calendar
import ApiMock.Entries
import ApiMock.Failure
import ApiMock.Number.Binary64
import ApiMock.Text.Point
/-!
# Data — values of a document

What a YAML or JSON document holds: scalars, lists and ordered mappings,
and the two collections YAML adds, sets and the pairs of an ordered
mapping. A collection that holds itself is cut where it comes up again; a
`loop` stands there. Keys are scalars and are compared by value, so `1`, `1.0` and
`true` are one key. A *document* proper has texts for keys;
`Data.withTextKeys` turns any value into one.

Documents are read without trusting their shape. `truthy`, `field` and
`elements` say what a value counts as when it is tested, looked into or
gone through, and which of these it refuses.
-/

namespace ApiMock

/-- A value without parts. -/
inductive Scalar where
  | null
  | bool (b : Bool)
  | int (n : Int)
  | float (x : Binary64)
  | str (s : String)
  | date (d : CalendarDate)
  | timestamp (t : Timestamp)
  | bytes (b : List UInt8)
  deriving Repr, Inhabited

/-- A value of a document. `pair` is an entry of an explicitly ordered
mapping, which is a list of pairs; `loop` is a list or a mapping that holds
the place it stands at. -/
inductive Data where
  | scalar (s : Scalar)
  | list (items : List Data)
  | pair (first second : Data)
  | set (members : List Scalar)
  | map (entries : List (Scalar × Data))
  | loop (isMapping : Bool)
  deriving Inhabited

namespace Scalar

/-- The whole number a truth value or a whole number stands for. -/
def int? : Scalar → Option Int
  | bool b => some (if b then 1 else 0)
  | int n => some n
  | _ => none

/-- Equality by value: numbers and truth values by the number they are,
everything else only to its own kind. -/
def same (s t : Scalar) : Bool :=
  match s, t with
  | null, null => true
  | float x, float y => x.same y || x = y
  | float x, t => t.int?.any x.isInt
  | s, float y => s.int?.any y.isInt
  | str a, str b => a == b
  | date a, date b => a = b
  | timestamp a, timestamp b => a.same b
  | bytes a, bytes b => a = b
  | s, t => s.int?.isSome && s.int? = t.int?

instance : BEq Scalar := ⟨same⟩

@[simp] theorem str_beq_str (a b : String) : (str a == str b) = (a == b) := rfl

/-- A scalar counts as true unless it is null, zero or empty. -/
def truthy : Scalar → Bool
  | null => false
  | bool b => b
  | int n => n ≠ 0
  | float x => !x.isInt 0
  | str s => !s.isEmpty
  | bytes b => !b.isEmpty
  | date _ | timestamp _ => true

end Scalar

namespace Data

/-- The value null. -/
def null : Data := .scalar .null

/-- Whether a value is null. -/
def isNull : Data → Bool
  | .scalar .null => true
  | _ => false

/-- A text. -/
def str (s : String) : Data := .scalar (.str s)

/-- A truth value. -/
def bool (b : Bool) : Data := .scalar (.bool b)

/-- A whole number. -/
def int (n : Int) : Data := .scalar (.int n)

/-- A mapping with texts for keys. -/
def object (fields : List (String × Data)) : Data :=
  .map (fields.map fun f => (.str f.1, f.2))

/-- A value counts as true unless it is null, zero or empty. -/
def truthy : Data → Bool
  | .scalar s => s.truthy
  | .list items => !items.isEmpty
  | .pair _ _ => true
  | .set members => !members.isEmpty
  | .map entries => !entries.isEmpty
  | .loop _ => true

/-- The text a value is, if it is one. -/
def text? : Data → Option String
  | .scalar (.str s) => some s
  | _ => none

/-- The text a value is; other values have no operations of a text. -/
def text : Data → Except Failure String
  | .scalar (.str s) => .ok s
  | .scalar (.bytes _) => .error .bytesNotText
  | _ => .error .notText

/-- The entries of a mapping. -/
def entries : Data → Except Failure (List (Scalar × Data))
  | .map es => .ok es
  | _ => .error .notMapping

/-- The value under a name in a list of entries. -/
def lookup (name : String) (es : List (Scalar × Data)) : Option Data :=
  List.lookup (Scalar.str name) es

/-- A value of a mapping is smaller than the mapping. -/
theorem sizeOf_lookup_lt {key : Scalar} {es : List (Scalar × Data)} {d : Data}
    (h : List.lookup key es = some d) : sizeOf d < sizeOf es := by
  induction es with
  | nil => simp at h
  | cons e rest ih =>
    obtain ⟨k, v⟩ := e
    rw [List.lookup_cons] at h
    split at h
    · cases h
      simp only [List.cons.sizeOf_spec, Prod.mk.sizeOf_spec]
      omega
    · have := ih h
      simp only [List.cons.sizeOf_spec]
      omega

/-- The value under a name, if this is a mapping that has it. -/
def field? (name : String) : Data → Option Data
  | .map es => lookup name es
  | _ => none

/-- The value under a name of a mapping; null if the name is missing. -/
def field (name : String) (d : Data) : Except Failure Data := do
  let es ← d.entries
  return (lookup name es).getD null

/-- The value itself, or the empty mapping if it counts as false. -/
def orEmpty (d : Data) : Data :=
  if d.truthy then d else .map []

/-- The elements of a value that can be gone through: the characters of
a text, the keys of a mapping, the numbers of a byte string. -/
def elements : Data → Except Failure (List Data)
  | .list items => .ok items
  | .pair a b => .ok [a, b]
  | .set members => .ok (members.map .scalar)
  | .map es => .ok (es.map fun e => .scalar e.1)
  | .scalar (.str s) => .ok ((Text.singles s).map str)
  | .scalar (.bytes b) => .ok (b.map fun n => int n.toNat)
  | _ => .error .notIterable

/-- The elements of a value, or none if it counts as false. -/
def elementsOrNone (d : Data) : Except Failure (List Data) :=
  if d.truthy then d.elements else .ok []

/-- The value holds no collection that could change, so it can be a key. -/
def isHashable : Data → Bool
  | .scalar _ => true
  | .pair a b => a.isHashable && b.isHashable
  | .list _ | .set _ | .map _ | .loop _ => false

/-- Equality of keys: scalars by value, pairs part by part. -/
def sameKey : Data → Data → Bool
  | .scalar s, .scalar t => s == t
  | .pair a b, .pair c d => a.sameKey c && b.sameKey d
  | _, _ => false

end Data

end ApiMock
