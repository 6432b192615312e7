import ApiMock.Proofs.Sequence
import ApiMock.Yaml.Merge
import Mathlib.Algebra.BigOperators.Fin
import Mathlib.Algebra.Order.BigOperators.Group.Finset
import Mathlib.Data.List.TakeWhile
/-!
# Yaml — freeing mappings of their merge keys

A step of freeing takes one merge key out of the graph and puts none into
it, so one round more than there are merge keys is enough, also where a
mapping names itself (`free_ends`). It fails only for what is no YAML.

What stays the same is told by `Alike`: the nodes keep their number, their
kind, the texts of scalars, and their tags but for keys that become texts.
`Eased` adds that each mapping keeps its entries or is free of merge keys
from then on.
-/

namespace ApiMock

open Sequence

namespace Yaml

/-- The entries of a mapping; other nodes have none. -/
def Node.entries (node : Node) : List NodeEntry :=
  match node.content with
  | .mapping es => es
  | _ => []

namespace Graph

variable {g h : Graph} {n m : NodeId} {e : NodeEntry} {es : List NodeEntry}

theorem entries_eq : g.entries n = (g.node n).entries := rfl

theorem isMapping_iff : g.isMapping n = true ↔ g.content n = .mapping (g.entries n) := by
  rw [isMapping, entries]
  split <;> simp_all

theorem isMapping_of_mem (he : e ∈ g.entries n) : g.isMapping n = true := by
  rw [entries] at he
  rw [isMapping]
  split at he
  · simp_all
  · cases he

/-- No key of a node is a merge key. -/
def IsFree (g : Graph) (n : NodeId) : Prop :=
  ∀ e ∈ g.entries n, g.isMerge e = false

/-! ## Counting merge keys -/

/-- The merge keys are counted mapping by mapping. -/
theorem mergeCount_eq : g.mergeCount =
    ∑ i ∈ Finset.range g.size, (g.entries i).countP g.isMerge := by
  have hstep : ∀ (count : Nat) (node : Node), (match node.content with
        | .mapping es => count + es.countP g.isMerge
        | _ => count) = count + node.entries.countP g.isMerge := by
    intro count node
    rw [Node.entries]
    cases node.content <;> rfl
  calc g.mergeCount
      = g.nodes.foldl (fun count node => count + node.entries.countP g.isMerge) 0 := by
        rw [mergeCount]
        congr
        funext count node
        exact hstep count node
    _ = (g.nodes.toList.map fun node => node.entries.countP g.isMerge).sum := by
        rw [← Array.foldl_toList, List.sum_eq_foldl, List.foldl_map]
    _ = _ := by
        rw [← Fin.sum_univ_fun_getElem, Finset.sum_range]
        refine Fintype.sum_congr _ _ fun i => ?_
        have hi : i.val < g.nodes.size := i.isLt
        rw [entries_eq, node]
        simp [Array.getD, hi]

/-! ## Changing a node -/

@[simp] theorem tag_withContent {c : Content} : (g.withContent n c).tag m = g.tag m := by
  rw [tag, tag, node, node, withContent]
  simp only [Array.getD_eq_getD_getElem?, Array.getElem?_modify]
  split
  · cases g.nodes[m]? <;> rfl
  · rfl

@[simp] theorem size_withContent {c : Content} : (g.withContent n c).size = g.size :=
  Array.size_modify ..

theorem content_withContent {c : Content} :
    (g.withContent n c).content m = if n = m ∧ n < g.size then c else g.content m := by
  rw [content, content, node, node, withContent]
  simp only [Array.getD_eq_getD_getElem?, Array.getElem?_modify]
  by_cases hn : n = m
  · subst hn
    by_cases hlt : n < g.size
    · have hlt' : n < g.nodes.size := hlt
      simp [hlt, hlt']
    · have hlt' : ¬ n < g.nodes.size := hlt
      simp [hlt, hlt']
  · simp [hn]

@[simp] theorem content_withTag {t : Tag} : (g.withTag n t).content m = g.content m := by
  rw [content, content, node, node, withTag]
  simp only [Array.getD_eq_getD_getElem?, Array.getElem?_modify]
  split
  · cases g.nodes[m]? <;> rfl
  · rfl

theorem tag_withTag {t : Tag} :
    (g.withTag n t).tag m = g.tag m ∨ n = m ∧ (g.withTag n t).tag m = t := by
  rw [tag, tag, node, node, withTag]
  simp only [Array.getD_eq_getD_getElem?, Array.getElem?_modify]
  split
  · rename_i heq
    cases g.nodes[m]? with
    | none => exact .inl rfl
    | some node => exact .inr ⟨heq, rfl⟩
  · exact .inl rfl

theorem lt_size_of_isMapping (hm : g.isMapping n = true) : n < g.size := by
  by_contra hlt
  have hnode : g.node n = .empty := by
    rw [node, Array.getD]
    exact dif_neg hlt
  rw [isMapping, content, hnode] at hm
  cases hm

/-- The same nodes, but for the entries of mappings and for keys with a meaning of their
own that have become texts. -/
structure Alike (g h : Graph) : Prop where
  size : h.size = g.size
  scalar (n : NodeId) (s : String) : h.content n = .scalar s ↔ g.content n = .scalar s
  mapping (n : NodeId) : h.isMapping n = g.isMapping n
  tag (n : NodeId) : h.tag n = g.tag n ∨ g.tag n = .value ∧ h.tag n = .str

namespace Alike

variable {k : Graph}

theorem refl : Alike g g :=
  ⟨rfl, fun _ _ => .rfl, fun _ => rfl, fun _ => .inl rfl⟩

theorem trans (hg : Alike g h) (hh : Alike h k) : Alike g k where
  size := hh.size.trans hg.size
  scalar n s := (hh.scalar n s).trans (hg.scalar n s)
  mapping n := (hh.mapping n).trans (hg.mapping n)
  tag n := by
    rcases hh.tag n with heq | ⟨hvalue, hstr⟩
    · rw [heq]
      exact hg.tag n
    · rcases hg.tag n with heq | ⟨-, hstr'⟩
      · exact .inr ⟨heq ▸ hvalue, hstr⟩
      · rw [hstr'] at hvalue
        cases hvalue

/-- Merge keys stay what they are. -/
theorem isMerge_eq (ha : Alike g h) : h.isMerge = g.isMerge := by
  funext e
  rw [isMerge, isMerge]
  rcases ha.tag e.1 with heq | ⟨hvalue, hstr⟩
  · rw [heq]
  · rw [hvalue, hstr]
    rfl

/-- With no more merge keys in each mapping there are no more altogether. -/
theorem mergeCount_le (ha : Alike g h)
    (hle : ∀ n, (h.entries n).countP g.isMerge ≤ (g.entries n).countP g.isMerge) :
    h.mergeCount ≤ g.mergeCount := by
  rw [mergeCount_eq, mergeCount_eq, ha.size, ha.isMerge_eq]
  exact Finset.sum_le_sum fun n _ => hle n

/-- With fewer of them in one there are fewer. -/
theorem mergeCount_lt (ha : Alike g h) (hm : g.isMapping m = true)
    (hle : ∀ n, (h.entries n).countP g.isMerge ≤ (g.entries n).countP g.isMerge)
    (hlt : (h.entries m).countP g.isMerge < (g.entries m).countP g.isMerge) :
    h.mergeCount < g.mergeCount := by
  rw [mergeCount_eq, mergeCount_eq, ha.size, ha.isMerge_eq]
  exact Finset.sum_lt_sum (fun n _ => hle n)
    ⟨m, Finset.mem_range.mpr (lt_size_of_isMapping hm), hlt⟩

end Alike

theorem withPlainKey_alike : Alike g (g.withPlainKey e) := by
  rw [withPlainKey]
  split
  · rename_i hvalue
    refine ⟨Array.size_modify .., fun n s => by rw [content_withTag], fun n => ?_, fun n => ?_⟩
    · rw [isMapping, isMapping, content_withTag]
    · rcases tag_withTag (g := g) (n := e.1) (m := n) (t := .str) with heq | ⟨rfl, heq⟩
      · exact .inl heq
      · exact .inr ⟨hvalue, heq⟩
  · exact .refl

theorem entries_withPlainKey : (g.withPlainKey e).entries n = g.entries n := by
  rw [withPlainKey]
  split
  · rw [entries, entries, content_withTag]
  · rfl

theorem withPlainKeys_alike (es : List NodeEntry) : Alike g (es.foldl withPlainKey g) ∧
    ∀ n, (es.foldl withPlainKey g).entries n = g.entries n := by
  induction es generalizing g with
  | nil => exact ⟨.refl, fun _ => rfl⟩
  | cons e rest ih =>
    obtain ⟨halike, hentries⟩ := ih (g := g.withPlainKey e)
    exact ⟨withPlainKey_alike.trans halike, fun n => (hentries n).trans entries_withPlainKey⟩

theorem withEntries_alike (hm : g.isMapping n = true) (es : List NodeEntry) :
    Alike g (g.withContent n (.mapping es)) := by
  refine ⟨size_withContent, fun m s => ?_, fun m => ?_, fun m => .inl tag_withContent⟩
  · rw [content_withContent]
    split
    · rename_i hn
      rw [← hn.1, isMapping_iff.mp hm]
      simp
    · rfl
  · by_cases hn : n = m
    · subst hn
      rw [hm, isMapping, content_withContent, if_pos ⟨rfl, lt_size_of_isMapping hm⟩]
    · rw [isMapping, content_withContent, if_neg fun h => hn h.1]
      rfl

theorem entries_withEntries (hm : g.isMapping n = true) :
    (g.withContent n (.mapping es)).entries m = if n = m then es else g.entries m := by
  rw [entries, content_withContent]
  by_cases hn : n = m
  · rw [if_pos hn, if_pos ⟨hn, lt_size_of_isMapping hm⟩]
  · rw [if_neg hn, if_neg fun h => hn h.1]
    rfl

/-! ## Freeing -/

/-- Some mappings were freed of their merge keys, and the others left alone. -/
structure Eased (g h : Graph) : Prop extends Alike g h where
  entries (n : NodeId) : h.entries n = g.entries n ∨ h.IsFree n
  count : h.mergeCount ≤ g.mergeCount

namespace Eased

variable {k : Graph}

theorem refl : Eased g g :=
  ⟨.refl, fun _ => .inl rfl, Nat.le_refl _⟩

/-- A mapping that is free stays so. -/
theorem isFree (he : Eased g h) (hn : g.IsFree n) : h.IsFree n := by
  rcases he.entries n with heq | hfree
  · intro e hmem
    rw [he.isMerge_eq]
    exact hn e (heq ▸ hmem)
  · exact hfree

theorem trans (hg : Eased g h) (hh : Eased h k) : Eased g k where
  toAlike := hg.toAlike.trans hh.toAlike
  entries n := by
    rcases hg.entries n with heq | hfree
    · exact heq ▸ hh.entries n
    · exact .inr (hh.isFree hfree)
  count := hh.count.trans hg.count

end Eased

/-- What `settled` does to a mapping without merge keys. -/
theorem settled_eased {gathered : List NodeEntry} (hn : g.IsFree n)
    (hgathered : ∀ e ∈ gathered, g.isMerge e = false)
    (hm : gathered ≠ [] → g.isMapping n = true) :
    Eased g (g.settled n gathered) ∧ (g.settled n gathered).IsFree n := by
  obtain ⟨halike, hentries⟩ := withPlainKeys_alike (g := g) (g.entries n)
  rw [settled]
  split
  -- with nothing gathered only keys change, otherwise the mapping is written anew
  · have heased : Eased g ((g.entries n).foldl withPlainKey g) :=
      ⟨halike, fun m => .inl (hentries m), halike.mergeCount_le fun m => by rw [hentries]⟩
    exact ⟨heased, heased.isFree hn⟩
  · rename_i hne
    have hm := hm (by simpa using hne)
    have hm' : ((g.entries n).foldl withPlainKey g).isMapping n = true := by
      rw [halike.mapping, hm]
    have halike' := halike.trans (withEntries_alike hm' (gathered ++ g.entries n))
    have hfree : (((g.entries n).foldl withPlainKey g).withContent n
        (.mapping (gathered ++ g.entries n))).IsFree n := by
      intro e he
      rw [entries_withEntries hm', if_pos rfl] at he
      rw [halike'.isMerge_eq]
      exact (List.mem_append.mp he).elim (hgathered e) (hn e)
    refine ⟨⟨halike', fun m => ?_, halike'.mergeCount_le fun m => ?_⟩, hfree⟩
    · rw [entries_withEntries hm']
      split
      · rename_i hnm
        exact .inr (hnm ▸ hfree)
      · exact .inl (hentries m)
    · by_cases hnm : n = m
      · subst hnm
        have hzero : ((((g.entries n).foldl withPlainKey g).withContent n
            (.mapping (gathered ++ g.entries n))).entries n).countP g.isMerge = 0 := by
          rw [List.countP_eq_zero]
          intro e he
          rw [← halike'.isMerge_eq, hfree e he]
          exact Bool.false_ne_true
        omega
      · rw [entries_withEntries hm', if_neg hnm, hentries]

/-- So many rounds free a mapping of any graph with fewer merge keys. -/
def Frees (rounds : Nat) (free : Graph → NodeId → Except Failure Graph) : Prop :=
  ∀ g n, g.mergeCount < rounds →
    Ends (· = .notYaml) (fun h => Eased g h ∧ h.IsFree n) (free g n)

variable {rounds : Nat} {free : Graph → NodeId → Except Failure Graph}

theorem freedEntries_ends (hfree : Frees rounds free) {ids : List NodeId}
    (hg : g.mergeCount < rounds) :
    Ends (· = .notYaml) (fun p => Eased g p.2 ∧ ∀ e ∈ p.1, p.2.isMerge e = false)
      (freedEntries free ids g) := by
  induction ids generalizing g with
  | nil => exact ⟨.refl, by simp⟩
  | cons n rest ih =>
    rw [freedEntries]
    split
    · rfl
    · refine (hfree g n hg).bind fun h hh => ?_
      refine (ih (Nat.lt_of_le_of_lt hh.1.count hg)).bind fun p hp => ?_
      refine ⟨hh.1.trans hp.1, fun e he => ?_⟩
      rcases List.mem_append.mp he with he | he
      · exact hp.2 e he
      · rw [hp.1.isMerge_eq]
        exact hh.2 e he

theorem inherited_ends (hfree : Frees rounds free) {value : NodeId} (hg : g.mergeCount < rounds) :
    Ends (· = .notYaml) (fun p => Eased g p.2 ∧ ∀ e ∈ p.1, p.2.isMerge e = false)
      (inherited free g value) := by
  rw [inherited]
  split
  · exact freedEntries_ends hfree hg
  · exact freedEntries_ends hfree hg
  · rfl

/-! ## The next merge key

The entries in front of it are passed over, and it is taken out. -/

section Passing

variable {p : NodeEntry → Bool} {start : Nat}

theorem take_passed : es.take (start + ((es.drop start).takeWhile p).length) =
    es.take start ++ (es.drop start).takeWhile p := by
  rw [List.take_add, ← List.prefix_iff_eq_take.mp (List.takeWhile_prefix p)]

/-- The entry at which passing over ends. -/
theorem stops (he : es[start + ((es.drop start).takeWhile p).length]? = some e) : p e = false := by
  rw [← List.getElem?_drop] at he
  have hsplit := List.takeWhile_append_dropWhile (p := p) (l := es.drop start)
  rw [← hsplit, List.getElem?_append_right (by rw [hsplit]), hsplit, Nat.sub_self,
    ← List.head?_eq_getElem?] at he
  have := List.head?_dropWhile_not p (es.drop start)
  rw [he] at this
  simpa using this

theorem countP_eraseIdx_lt {i : Nat} (he : es[i]? = some e) (hp : p e = true) :
    (es.eraseIdx i).countP p < es.countP p := by
  obtain ⟨hi, rfl⟩ := List.getElem?_eq_some_iff.mp he
  have hsplit : es.countP p = (es.take i ++ es[i] :: es.drop (i + 1)).countP p := by
    rw [← List.drop_eq_getElem_cons hi, List.take_append_drop]
  rw [hsplit, List.eraseIdx_eq_take_drop_succ, List.countP_append, List.countP_append,
    List.countP_cons_of_pos hp]
  omega

end Passing

/-- The graph `h` lacks a merge key of the mapping `n`, the one at a place. -/
structure Loses (g : Graph) (n : NodeId) (place : Nat) (h : Graph) : Prop extends Alike g h where
  entries (m : NodeId) : h.entries m = if n = m then (g.entries n).eraseIdx place else g.entries m
  count : h.mergeCount < g.mergeCount

namespace Loses

variable {place : Nat} {k : Graph}

theorem of_isMerge (he : (g.entries n)[place]? = some e) (hmerge : g.isMerge e = true) :
    Loses g n place (g.withContent n (.mapping ((g.entries n).eraseIdx place))) := by
  have hmap : g.isMapping n = true := isMapping_of_mem (List.mem_of_getElem? he)
  have halike := withEntries_alike hmap ((g.entries n).eraseIdx place)
  have hentries : ∀ m, (g.withContent n (.mapping ((g.entries n).eraseIdx place))).entries m =
      if n = m then (g.entries n).eraseIdx place else g.entries m :=
    fun m => entries_withEntries hmap
  have hfewer := countP_eraseIdx_lt (p := g.isMerge) he hmerge
  refine ⟨halike, hentries, halike.mergeCount_lt hmap (fun m => ?_) ?_⟩
  · rw [hentries]
    split
    · rename_i hnm
      exact hnm ▸ Nat.le_of_lt hfewer
    · exact Nat.le_refl _
  · rwa [hentries, if_pos rfl]

/-- What was passed over in front of the key is still free of merge keys when other mappings
were freed. -/
theorem passed (hl : Loses g n place h) (he : Eased h k) (hplace : place ≤ (g.entries n).length)
    (hpassed : ∀ e ∈ (g.entries n).take place, g.isMerge e = false) :
    ∀ e ∈ (k.entries n).take place, k.isMerge e = false := by
  intro e hmem
  rcases he.entries n with heq | hfree
  · rw [heq, hl.entries, if_pos rfl, List.eraseIdx_eq_take_drop_succ,
      List.take_append_of_le_length (by simpa using hplace), List.take_take, Nat.min_self] at hmem
    rw [(hl.toAlike.trans he.toAlike).isMerge_eq]
    exact hpassed e hmem
  · exact hfree e (List.mem_of_mem_take hmem)

/-- When the mapping is free in the end, nothing shows of the key that it lost. -/
theorem eased (hl : Loses g n place h) (he : Eased h k) (hfree : k.IsFree n) : Eased g k where
  toAlike := hl.toAlike.trans he.toAlike
  entries m := by
    by_cases hnm : n = m
    · exact .inr (hnm ▸ hfree)
    · have := he.entries m
      rwa [hl.entries, if_neg hnm] at this
  count := he.count.trans (Nat.le_of_lt hl.count)

end Loses

/-- One round more than there are merge keys is enough from any place on. -/
theorem freeFrom_ends {start : Nat} {gathered : List NodeEntry} (hg : g.mergeCount < rounds)
    (hgathered : ∀ e ∈ gathered, g.isMerge e = false)
    (hm : gathered ≠ [] → g.isMapping n = true)
    (hstart : ∀ e ∈ (g.entries n).take start, g.isMerge e = false) :
    Ends (· = .notYaml) (fun h => Eased g h ∧ h.IsFree n) (freeFrom rounds n start gathered g) := by
  induction rounds generalizing g n start gathered with
  | zero => omega
  | succ rounds ih =>
    have hfrees : Frees rounds fun g m => freeFrom rounds m 0 [] g :=
      fun g m hg => ih hg (by simp) (by simp) (by simp)
    have hpassed : ∀ e ∈ (g.entries n).take (start +
        (((g.entries n).drop start).takeWhile fun e => !g.isMerge e).length),
        g.isMerge e = false := by
      intro e he
      rw [take_passed] at he
      rcases List.mem_append.mp he with he | he
      · exact hstart e he
      · simpa using List.mem_takeWhile_imp he
    rw [freeFrom]
    dsimp only
    generalize hplace : start + (((g.entries n).drop start).takeWhile fun e => !g.isMerge e).length
      = place at hpassed
    split
    · rename_i hnone
      refine settled_eased (fun e he => hpassed e ?_) hgathered hm
      rwa [List.take_of_length_le (List.getElem?_eq_none_iff.mp hnone)]
    · rename_i e he
      have hmerge : g.isMerge e = true := by
        subst hplace
        simpa using stops he
      have hle : place ≤ (g.entries n).length := Nat.le_of_lt (List.getElem?_eq_some_iff.mp he).1
      have hl := Loses.of_isMerge he hmerge
      have hless := hl.count
      refine (inherited_ends hfrees (by omega)).bind ?_
      rintro ⟨more, h⟩ ⟨heased, hmore⟩
      -- the mapping has lost the key, and what the key named is free
      have halike := hl.toAlike.trans heased.toAlike
      have hcount := heased.count
      refine (ih (by omega) ?_ (fun _ => ?_) (hl.passed heased hle hpassed)).mono
        (fun _ h => h) fun k hk => ⟨hl.eased (heased.trans hk.1) hk.2, hk.2⟩
      · intro e he
        rcases List.mem_append.mp he with he | he
        · rw [halike.isMerge_eq]
          exact hgathered e he
        · exact hmore e he
      · rw [halike.mapping]
        exact isMapping_of_mem (List.mem_of_getElem? he)

/-- **Freeing a mapping never runs out of rounds.** It is refused as no YAML, or the mapping
is free of merge keys and nothing else has changed but that others may be free as well. -/
theorem free_ends : Ends (· = .notYaml) (fun h => Eased g h ∧ h.IsFree n) (g.free n) := by
  rw [free]
  split
  · exact freeFrom_ends (Nat.lt_succ_self _) (by simp) (by simp) (by simp)
  · rename_i hany
    refine ⟨.refl, fun e he => ?_⟩
    simp only [List.any_eq_true, not_exists, not_and, Bool.not_eq_true] at hany
    exact (Bool.or_eq_false_iff.mp (hany e he)).1

end Graph

end Yaml

end ApiMock
