/-!
# Entries — ordered mappings

A mapping that remembers the order of its entries is a list of pairs.
Writing an existing key replaces the value and keeps the place; a new key
goes to the end. So the last value of a key stands at its first position.
Looking up is `List.lookup`.
-/

namespace ApiMock

namespace Entries

variable {κ : Type} [BEq κ] {α : Type}

/-- Writes a key: in place if it is there, at the end otherwise. -/
def put (key : κ) (value : α) : List (κ × α) → List (κ × α)
  | [] => [(key, value)]
  | (k, v) :: rest => if k == key then (k, value) :: rest else (k, v) :: put key value rest

/-- Writes all of `later`, in order. -/
def merge (entries later : List (κ × α)) : List (κ × α) :=
  later.foldl (fun es e => put e.1 e.2 es) entries

/-- The mapping that a list of pairs writes. -/
def ofList (pairs : List (κ × α)) : List (κ × α) :=
  merge [] pairs

/-- Applies `f` to the value of a key, or to `fresh` if the key is new. -/
def modify (key : κ) (fresh : α) (f : α → α) (entries : List (κ × α)) : List (κ × α) :=
  put key (f ((entries.lookup key).getD fresh)) entries

/-- The keys, in order. -/
def keys (entries : List (κ × α)) : List κ :=
  entries.map Prod.fst

/-! ## What a write does -/

variable [LawfulBEq κ]

/-- A written key has the written value. -/
@[simp] theorem lookup_put_self {key : κ} {value : α} {entries : List (κ × α)} :
    (put key value entries).lookup key = some value := by
  induction entries with
  | nil => simp [put]
  | cons e rest ih =>
    obtain ⟨k, v⟩ := e
    rw [put]
    split
    · rename_i h
      simp [eq_of_beq h]
    · rename_i h
      have hne : (key == k) = false := by
        rw [beq_eq_false_iff_ne]
        exact fun e => h (beq_iff_eq.mpr e.symm)
      rw [List.lookup_cons, hne]
      exact ih

/-- Every other key keeps its value. -/
theorem lookup_put_of_ne {key other : κ} {value : α} {entries : List (κ × α)} (h : other ≠ key) :
    (put key value entries).lookup other = entries.lookup other := by
  induction entries with
  | nil => simp [put, List.lookup_cons, beq_eq_false_iff_ne.mpr h]
  | cons e rest ih =>
    obtain ⟨k, v⟩ := e
    rw [put]
    split
    · rename_i hk
      have hne : (other == k) = false := beq_eq_false_iff_ne.mpr (eq_of_beq hk ▸ h)
      simp [List.lookup_cons, hne]
    · simp [List.lookup_cons, ih]

end Entries

end ApiMock
