import ApiMock.OpenApi.Pointer
/-!
# OpenApi — pointers that are written

A pointer is written from keys: each is escaped, so that the slashes in between are the only ones,
and a hash and a slash stand in front. Reading the pointer gives the keys back
(`keys_written`), unless the first one is empty or starts with a hash, which is then taken for a
part of the front. So a written pointer leads to what its keys lead to, and to null where the way
is lost (`follow_written`).
-/

namespace ApiMock

namespace Text

variable {a b c : Char} {by' cs sep piece : List Char} {others : List (List Char)}

/-- A character that opens no pair stays. -/
theorem replacePair_cons (h : c = a → cs.head? ≠ some b) :
    replacePair a b by' (c :: cs) = c :: replacePair a b by' cs := by
  cases cs with
  | nil => rfl
  | cons d rest =>
    rw [replacePair, if_neg]
    rintro ⟨hc, rfl⟩
    exact h hc rfl

/-- A pair is replaced. -/
theorem replacePair_pair : replacePair a b by' (a :: b :: cs) = by' ++ replacePair a b by' cs := by
  rw [replacePair, if_pos ⟨rfl, rfl⟩]

/-- Pieces that are joined start like the first one. -/
theorem head?_joinWith (h : piece.head? = some c) :
    (joinWith sep (piece :: others)).head? = some c := by
  cases others with
  | nil => exact h
  | cons next others => rw [joinWith, List.append_assoc, List.head?_append, h, Option.some_or]; simp

end Text

namespace Pointer

open Text

variable {key : String} {rest : List String} {document d e : Data}

/-! ## Keys -/

/-- A key as it is written: `~0` for a tilde and `~1` for a slash. -/
def escape (key : List Char) : List Char :=
  key.flatMap fun c => if c = '~' then ['~', '0'] else if c = '/' then ['~', '1'] else [c]

/-- With the slashes put back only the tildes of a key are escaped. -/
theorem replacePair_escape (key : List Char) :
    replacePair '~' '1' ['/'] (escape key) = replaceChar '~' ['~', '0'] key := by
  induction key with
  | nil => rfl
  | cons c key ih =>
    rw [escape, List.flatMap_cons, ← escape, replaceChar, List.flatMap_cons, ← replaceChar]
    by_cases htilde : c = '~'
    · rw [if_pos htilde, if_pos htilde, List.cons_append, List.singleton_append,
        replacePair_cons (by simp), replacePair_cons (by simp), ih]
      rfl
    · by_cases hslash : c = '/'
      · rw [if_neg htilde, if_neg htilde, if_pos hslash, List.cons_append, List.singleton_append,
          replacePair_pair, ih, hslash]
      · rw [if_neg htilde, if_neg htilde, if_neg hslash, List.singleton_append,
          replacePair_cons (fun h => absurd h htilde), ih]
        rfl

/-- And then these are put back. -/
theorem replacePair_replaceChar (key : List Char) :
    replacePair '~' '0' ['~'] (replaceChar '~' ['~', '0'] key) = key := by
  induction key with
  | nil => rfl
  | cons c key ih =>
    rw [replaceChar, List.flatMap_cons, ← replaceChar]
    by_cases htilde : c = '~'
    · rw [if_pos htilde, List.cons_append, List.singleton_append, replacePair_pair, ih, htilde]
      rfl
    · rw [if_neg htilde, List.singleton_append, replacePair_cons (fun h => absurd h htilde), ih]

/-- **An escaped key is read as the key.** -/
theorem unescape_escape (key : List Char) : unescape (escape key) = key := by
  rw [unescape, replacePair_escape, replacePair_replaceChar]

/-- There is no slash in an escaped key. -/
theorem slash_notMem_escape (key : List Char) : '/' ∉ escape key := by
  intro h
  obtain ⟨c, -, hc⟩ := List.mem_flatMap.mp h
  split at hc
  · simp at hc
  · split at hc
    · simp at hc
    · rename_i hslash
      exact hslash (List.mem_singleton.mp hc).symm

/-- It starts with a hash where the key does, and is empty only for the empty key. -/
theorem head?_escape (key : List Char) :
    (escape key).head? = key.head?.map fun c => if c = '/' then '~' else c := by
  cases key with
  | nil => rfl
  | cons c key =>
    rw [escape, List.flatMap_cons]
    by_cases htilde : c = '~'
    · simp [htilde]
    · by_cases hslash : c = '/'
      · simp [hslash]
      · simp [htilde, hslash]

/-- Every tilde and every slash of a key makes it longer. -/
theorem length_escape (key : List Char) :
    (escape key).length = key.length + key.countP fun c => c = '~' || c = '/' := by
  induction key with
  | nil => rfl
  | cons c key ih =>
    rw [escape, List.flatMap_cons, ← escape, List.length_append, ih, List.countP_cons,
      List.length_cons]
    by_cases htilde : c = '~'
    · simp [htilde]
      omega
    · by_cases hslash : c = '/'
      · simp [hslash]
        omega
      · simp [htilde, hslash]
        omega

/-- Only the empty key is written as nothing. -/
theorem escape_eq_nil_iff {key : List Char} : escape key = [] ↔ key = [] := by
  rw [← List.length_eq_zero_iff, ← List.length_eq_zero_iff, length_escape]
  refine ⟨fun h => by omega, fun h => ?_⟩
  rw [List.length_eq_zero_iff.mp h]
  rfl

/-- **A key is written as it is** exactly if there is no tilde and no slash in it. -/
theorem escape_eq_self_iff {key : List Char} : escape key = key ↔ '~' ∉ key ∧ '/' ∉ key := by
  constructor
  · intro h
    have hlength := length_escape key
    rw [h, Nat.left_eq_add, List.countP_eq_zero] at hlength
    exact ⟨fun hin => hlength _ hin rfl, fun hin => hlength _ hin rfl⟩
  · rintro ⟨htilde, hslash⟩
    induction key with
    | nil => rfl
    | cons c key ih =>
      rw [List.mem_cons, not_or] at htilde hslash
      rw [escape, List.flatMap_cons, ← escape, if_neg (Ne.symm htilde.1),
        if_neg (Ne.symm hslash.1), ih htilde.2 hslash.2]
      rfl

/-! ## Pointers -/

/-- The pointer that is written from keys. -/
def written (keys : List String) : String :=
  String.ofList ('#' :: '/' :: joinWith ['/'] (keys.map fun key => escape key.toList))

/-- Behind the front nothing else is taken off. -/
theorem dropWhile_front (hkey : key ≠ "") (hhash : key.toList.head? ≠ some '#') :
    (written (key :: rest)).toList.dropWhile (fun c => c = '#' || c = '/') =
      joinWith ['/'] ((key :: rest).map fun key => escape key.toList) := by
  obtain ⟨c, cs, hcs⟩ := List.exists_cons_of_ne_nil fun h => hkey (String.toList_eq_nil_iff.mp h)
  rw [hcs, List.head?_cons, Ne, Option.some_inj] at hhash
  -- a slash at the front of the key is escaped
  have hfirst : (escape key.toList).head? = some (if c = '/' then '~' else c) := by
    rw [head?_escape, hcs, List.head?_cons, Option.map_some]
  obtain ⟨others, hjoin⟩ := List.head?_eq_some_iff.mp (head?_joinWith hfirst)
  rw [written, String.toList_ofList, List.map_cons, hjoin, List.dropWhile_cons_of_pos rfl,
    List.dropWhile_cons_of_pos rfl, List.dropWhile_cons_of_neg]
  split
  · decide
  · rename_i hslash
    simp [hhash, hslash]

/-- **The keys of a written pointer** are those it was written from. -/
theorem keys_written (hkey : key ≠ "") (hhash : key.toList.head? ≠ some '#') :
    keys (written (key :: rest)) = key :: rest := by
  have hpieces : ∀ piece ∈ (key :: rest).map (fun key => escape key.toList), '/' ∉ piece := by
    intro piece hpiece
    obtain ⟨k, -, rfl⟩ := List.mem_map.mp hpiece
    exact slash_notMem_escape k.toList
  rw [keys, dropWhile_front hkey hhash, cut_joinWith (by simp) hpieces, List.map_map]
  refine List.map_id'' (fun k => ?_) _
  rw [Function.comp_apply, unescape_escape, String.ofList_toList]

/-! ## Ways into a document -/

/-- Looking keys up one after the other, through mappings, leads from one value to another. -/
inductive Finds : Data → List String → Data → Prop where
  | here (d : Data) : Finds d [] d
  | down {es : List (Scalar × Data)} {key : String} {rest : List String} {next d : Data}
      (hkey : Data.lookup key es = some next) (h : Finds next rest d) :
      Finds (.map es) (key :: rest) d

/-- On the way a key is looked up in what is no mapping, or in one that lacks it. -/
inductive Lost : Data → List String → Prop where
  | noMapping {d : Data} {key : String} {rest : List String} (h : ∀ es, d ≠ .map es) :
      Lost d (key :: rest)
  | missing {es : List (Scalar × Data)} {key : String} {rest : List String}
      (h : Data.lookup key es = none) : Lost (.map es) (key :: rest)
  | down {es : List (Scalar × Data)} {key : String} {rest : List String} {next : Data}
      (hkey : Data.lookup key es = some next) (h : Lost next rest) : Lost (.map es) (key :: rest)

/-- A way that leads somewhere is gone. -/
theorem Finds.walk_eq {keys : List String} (h : Finds d keys e) : walk d keys = e := by
  induction h with
  | here => rfl
  | down hkey _ ih =>
    rw [walk, Data.field?, hkey]
    exact ih

/-- A way that is lost ends at null. -/
theorem Lost.walk_eq {keys : List String} (h : Lost d keys) : walk d keys = .null := by
  induction h with
  | @noMapping d key rest h =>
    have hnone : d.field? key = none := by
      cases d with
      | map es => exact absurd rfl (h es)
      | _ => rfl
    rw [walk, hnone]
  | missing h => rw [walk, Data.field?, h]
  | down hkey _ ih =>
    rw [walk, Data.field?, hkey]
    exact ih

/-- No way is lost and leads somewhere. -/
theorem Lost.not_finds {keys : List String} (h : Lost d keys) : ¬ Finds d keys e := by
  induction h with
  | noMapping h =>
    intro hfinds
    cases hfinds
    exact h _ rfl
  | missing h =>
    rintro (_ | ⟨hkey, -⟩)
    rw [h] at hkey
    cases hkey
  | down hkey _ ih =>
    rintro (_ | ⟨hkey', hfinds⟩)
    obtain rfl : _ = _ := Option.some.inj (hkey.symm.trans hkey')
    exact ih hfinds

/-- Every way does one of the two. -/
theorem finds_or_lost (d : Data) (keys : List String) : (∃ e, Finds d keys e) ∨ Lost d keys := by
  induction keys generalizing d with
  | nil => exact .inl ⟨d, .here d⟩
  | cons key rest ih =>
    cases d with
    | map es =>
      cases hkey : Data.lookup key es with
      | none => exact .inr (.missing hkey)
      | some next =>
        rcases ih next with ⟨e, he⟩ | hlost
        · exact .inl ⟨e, .down hkey he⟩
        · exact .inr (.down hkey hlost)
    | _ => exact .inr (.noMapping nofun)

/-- What the keys lead to, the pointer does. -/
theorem follow_of_finds (hkey : key ≠ "") (hhash : key.toList.head? ≠ some '#')
    (h : Finds document (key :: rest) d) : follow document (written (key :: rest)) = d := by
  rw [follow, keys_written hkey hhash, h.walk_eq]

/-- **A written pointer leads to what its keys lead to**, and to null exactly where their way is
lost or leads to null. The way is lost if it leads nowhere. -/
theorem follow_written (document d : Data) (hkey : key ≠ "") (hhash : key.toList.head? ≠ some '#') :
    (follow document (written (key :: rest)) = d ↔
        Finds document (key :: rest) d ∨ Lost document (key :: rest) ∧ d = .null) ∧
      (Lost document (key :: rest) ↔ ∀ e, ¬ Finds document (key :: rest) e) := by
  have hlost : Lost document (key :: rest) → follow document (written (key :: rest)) = .null :=
    fun h => by rw [follow, keys_written hkey hhash, h.walk_eq]
  refine ⟨⟨?_, ?_⟩, fun h _ => h.not_finds, fun h => ?_⟩
  · rintro rfl
    rcases finds_or_lost document (key :: rest) with ⟨e, he⟩ | h
    · exact .inl (by rwa [follow_of_finds hkey hhash he])
    · exact .inr ⟨h, hlost h⟩
  · rintro (hfinds | ⟨h, rfl⟩)
    · exact follow_of_finds hkey hhash hfinds
    · exact hlost h
  · exact (finds_or_lost document (key :: rest)).resolve_left fun ⟨e, he⟩ => h e he

/-- A document with a slash, a tilde and a hash in its keys, and with one that is empty. -/
def oddKeys : Data :=
  .object [("~1/#", .object [("", .object [("/~0", .str "found")])])]

/-- Its keys are written with care, and lead to what stands there; a further one is lost. -/
theorem oddKeys_followed :
    written ["~1/#", "", "/~0"] = "#/~01~1#//~1~00" ∧
      follow oddKeys (written ["~1/#", "", "/~0"]) = .str "found" ∧
      follow oddKeys (written ["~1/#", "", "/~0", "#"]) = .null := by
  refine ⟨by decide, ?_, ?_⟩
  · refine (follow_written oddKeys _ (by decide) (by decide)).1.mpr (.inl ?_)
    exact .down rfl (.down rfl (.down rfl (.here _)))
  · refine (follow_written oddKeys _ (by decide) (by decide)).1.mpr (.inr ⟨?_, rfl⟩)
    exact .down rfl (.down rfl (.down rfl (.noMapping nofun)))

end Pointer

/-- A reference. -/
def referTo (pointer : String) : Data := .object [("$ref", .str pointer)]

end ApiMock
