import ApiMock.Data.Shown
/-!
# Data — typed fields

Fields of a record that must be texts. Bytes will do if they encode one. A
record names every field that refuses its value, in the order the fields
are declared.
-/

namespace ApiMock

namespace Data

/-- What a field says that needed a text. -/
def textExpected : String := "Input should be a valid string"

/-- What a field says that needed a text and cannot make one of this. -/
def textUnclear : String :=
  "Input should be a valid string, unable to parse raw data as a unicode string"

/-- The text of a field: a text, or the bytes that encode one. -/
def fieldText (d : Data) : Except String String :=
  match d with
  | .scalar (.str s) => .ok s
  | .scalar (.bytes b) =>
    match Text.ofBytes? b with
    | some s => .ok s
    | none => .error textUnclear
  | _ => .error textExpected

/-- The text of a field, if it has one. -/
def fieldText? (d : Data) : Option String :=
  d.fieldText.toOption

/-- The fault of a field that must be a text. -/
def textFaults (place : String) (d : Data) : List FieldFault :=
  match d.fieldText with
  | .ok _ => []
  | .error reason => [⟨place, reason⟩]

/-- The fault of a field that must be a text or null. -/
def optionalTextFaults (place : String) : Data → List FieldFault
  | .scalar .null => []
  | d => d.textFaults place

/-- The faults of a field whose elements must all be texts. -/
def textListFaults (place : String) (ds : List Data) : List FieldFault :=
  (ds.zipIdx.map fun e => e.1.textFaults s!"{place}.{e.2}").flatten

/-- The faults of a mapping whose keys must all be texts. -/
def keyFaults (place : String) (keys : List Scalar) : List FieldFault :=
  keys.flatMap fun k => (Data.scalar k).textFaults s!"{place}.{k.shown}.[key]"

/-- The entries under keys that are texts. -/
def textKeyed {α : Type} (es : List (Scalar × α)) : List (String × α) :=
  es.filterMap fun e => (Data.scalar e.1).fieldText?.map (·, e.2)

/-- Lets a record through only if none of its fields has a fault. -/
def refuseFaults (faults : List FieldFault) : Except Failure Unit :=
  if faults.isEmpty then .ok () else .error (.refused faults)

end Data

end ApiMock
