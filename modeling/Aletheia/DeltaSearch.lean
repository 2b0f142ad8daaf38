import Aletheia.TopK
import Aletheia.Version
import Mathlib.Data.Finset.Card

/-!
# Searching a delta snapshot

A delta snapshot keeps an index of the vectors that were added or updated since its base, and the
set of nodes whose vector in the base is not valid any more. A search asks both indexes for more
results than it needs and merges them. That the nodes removed since the base are all counted as
invalid in the base, also those the base never had, does no harm to the search; it makes the length
wrong.
-/

namespace Aletheia.VectorSnapshot

open List

/-- A map of nodes to vectors. -/
structure VectorMap (V : Type) where
  nodes : Finset NodeId
  vector : NodeId → V

variable {V β : Type} [LinearOrder β]

/-- The scores of the nodes that satisfy the predicate. -/
def VectorMap.scores (m : VectorMap V) (score : V → β) (p : NodeId → Bool) : Multiset β :=
  (m.nodes.filter (p ·)).val.map fun n => score (m.vector n)

/-! ### The code -/

/-- A search in an index with the given contents: scores, predicate and number of results. -/
abbrev Hnsw (V β : Type) := VectorMap V → (V → β) → (NodeId → Bool) → ℕ → List (NodeId × β)

structure DeltaIndex (V : Type) where
  /-- the contents of a full snapshot -/
  base : VectorMap V
  added : VectorMap V
  removed : Finset NodeId

def buildDeltaSnapshot (base current : VectorMap V) (changes : Finset NodeId) : DeltaIndex V where
  base := base
  added := ⟨changes.filter (· ∈ current.nodes), current.vector⟩
  removed := changes.filter fun n => n ∈ current.nodes → n ∈ base.nodes

/-- `k.saturating_mul(2).max(k + 10)`, unless the sum overflows. -/
def searchK (k : ℕ) : Option ℕ :=
  if k + 10 < 2 ^ 64 then some (max (min (k * 2) (2 ^ 64 - 1)) (k + 10)) else none

/-- Keep the first result of each node. -/
def retainFirst : List NodeId → List (NodeId × β) → List (NodeId × β)
  | _, [] => []
  | seen, r :: rs => if r.1 ∈ seen then retainFirst seen rs else r :: retainFirst (r.1 :: seen) rs

/-- The stable sort by score, the best first. -/
def sortByScore (l : List (NodeId × β)) : List (NodeId × β) :=
  l.mergeSort fun a b => decide (b.2 ≤ a.2)

namespace DeltaIndex

variable (hnsw : Hnsw V β) (d : DeltaIndex V) (score : V → β)

def search (k : ℕ) : Option (List (NodeId × β)) :=
  (searchK k).map fun searchK =>
    let results := hnsw d.added score (fun _ => true) searchK
    let addedIds := results.map Prod.fst
    let baseResults := hnsw d.base score (fun n => n ∉ d.removed && n ∉ addedIds) searchK
    (sortByScore (results ++ baseResults)).take k

def searchWithFilter (k : ℕ) (predicate : NodeId → Bool) : Option (List (NodeId × β)) :=
  (searchK k).map fun searchK =>
    let results := hnsw d.added score predicate searchK
    let baseResults := hnsw d.base score (fun n => predicate n && n ∉ d.removed) searchK
    (sortByScore (retainFirst [] (results ++ baseResults))).take k

/-- `SnapshotIndex::len` of a delta, unless the subtraction underflows. -/
def len : Option ℕ :=
  let total := d.base.nodes.card + d.added.nodes.card
  if d.removed.card ≤ total then some (total - d.removed.card) else none

end DeltaIndex

/-! ### Agreement with a full snapshot -/

/-- The `k` best results: distinct nodes with their scores, and these are the largest ones. -/
structure IsBest (m : VectorMap V) (score : V → β) (k : ℕ) (p : NodeId → Bool)
    (r : List (NodeId × β)) : Prop where
  nodup : (r.map Prod.fst).Nodup
  mem : ∀ x ∈ r, x.1 ∈ m.nodes ∧ p x.1 = true ∧ x.2 = score (m.vector x.1)
  scores : r.map Prod.snd = topK k (m.scores score p)

/-- The index returns the best results. -/
def Hnsw.Exact (hnsw : Hnsw V β) : Prop := ∀ m score p k, IsBest m score k p (hnsw m score p k)

/-- The results are those of a full snapshot of `m`, up to ties, with the same scores. -/
def AsFull (hnsw : Hnsw V β) (m : VectorMap V) (score : V → β) (k : ℕ) (p : NodeId → Bool)
    (r : List (NodeId × β)) : Prop :=
  IsBest m score k p r ∧ r.map Prod.snd = (hnsw m score p k).map Prod.snd

/-- Outside of the change set, nothing changed. -/
def Covers (changes : Finset NodeId) (base current : VectorMap V) : Prop :=
  ∀ n ∉ changes, (n ∈ base.nodes ↔ n ∈ current.nodes) ∧
    (n ∈ base.nodes → base.vector n = current.vector n)

variable {base current : VectorMap V} {changes : Finset NodeId} {score : V → β}
  {hnsw : Hnsw V β} {p p' : NodeId → Bool} {k m : ℕ} {l l' : List (NodeId × β)}

/-- Sorting sorts the scores. -/
lemma map_sortByScore : (sortByScore l).map Prod.snd = (↑(l.map Prod.snd) : Multiset β).sort (· ≥ ·) := by
  have h : (sortByScore l).Pairwise fun a b => decide (b.2 ≤ a.2) = true :=
    pairwise_mergeSort
      (fun a b c hab hbc => by simpa using (of_decide_eq_true hbc).trans (of_decide_eq_true hab))
      (fun a b => by simpa using le_total _ _) l
  refine (sort_eq_of_pairwise (pairwise_map.mpr (h.imp of_decide_eq_true)) ?_).symm
  exact Multiset.coe_eq_coe.mpr ((mergeSort_perm l _).map _)

omit [LinearOrder β] in
lemma retainFirst_of_nodup {seen : List NodeId} (h : (l.map Prod.fst).Nodup)
    (hseen : ∀ r ∈ l, r.1 ∉ seen) : retainFirst seen l = l := by
  induction l generalizing seen with
  | nil => rfl
  | cons r l ih =>
    rw [map_cons, nodup_cons] at h
    rw [forall_mem_cons] at hseen
    rw [retainFirst, if_neg hseen.1, ih h.2 fun x hx => ?_]
    rw [mem_cons, not_or]
    exact ⟨fun heq => h.1 (heq ▸ mem_map_of_mem hx), hseen.2 x hx⟩

section Built

variable (hcovers : Covers changes base current)
include hcovers

omit [LinearOrder β] in
variable (score) in
/-- The valid part of the base and the added vectors make up the current ones. -/
lemma scores_add (hp : ∀ n ∈ base.nodes, n ∉ changes → (p' n = true ↔ p n = true))
    (hgone : ∀ n ∈ base.nodes, n ∈ changes → p' n = false) :
    (buildDeltaSnapshot base current changes).added.scores score p + base.scores score p' =
      current.scores score p := by
  have hkept : ∀ n ∈ base.nodes, p' n = true → n ∉ changes := fun n hn hp' hc => by
    rw [hgone n hn hc] at hp'
    cases hp'
  have hdisjoint : Disjoint (((changes.filter (· ∈ current.nodes))).filter (p ·))
      (base.nodes.filter (p' ·)) := by
    refine Finset.disjoint_left.mpr fun n hn hn' => ?_
    simp only [Finset.mem_filter] at hn hn'
    exact hkept n hn'.1 hn'.2 hn.1.1
  have hunion : (((changes.filter (· ∈ current.nodes))).filter (p ·)).disjUnion
      (base.nodes.filter (p' ·)) hdisjoint = current.nodes.filter (p ·) := by
    ext n
    simp only [Finset.mem_disjUnion, Finset.mem_filter]
    by_cases hn : n ∈ changes
    · have hnot : ¬ (n ∈ base.nodes ∧ p' n = true) := fun h => hkept n h.1 h.2 hn
      simp only [hn, true_and, hnot, or_false]
    · simp only [hn, false_and, false_or, ← (hcovers n hn).1]
      exact and_congr_right fun hbase => hp n hbase hn
  unfold VectorMap.scores
  rw [← hunion, Finset.disjUnion_val, Multiset.map_add]
  refine congrArg _ (Multiset.map_congr rfl fun n hn => ?_)
  obtain ⟨hbase, hp'⟩ := Finset.mem_filter.mp hn
  rw [(hcovers n (hkept n hbase hp')).2 hbase]

variable (p p' score) in
/-- The merged results. -/
lemma asFull_merge (hexact : hnsw.Exact)
    (hp : ∀ n ∈ base.nodes, n ∉ changes → (p' n = true ↔ p n = true))
    (hgone : ∀ n ∈ base.nodes, n ∈ changes → p' n = false) (hk : k ≤ m) :
    let results := hnsw (buildDeltaSnapshot base current changes).added score p m ++
      hnsw base score p' m
    (results.map Prod.fst).Nodup ∧ AsFull hnsw current score k p ((sortByScore results).take k) := by
  intro results
  have hadded := hexact (buildDeltaSnapshot base current changes).added score p m
  have hbase := hexact base score p' m
  have hfresh : ∀ x ∈ hnsw base score p' m, x.1 ∉ changes := fun x hx hc => by
    obtain ⟨hn, hp', -⟩ := hbase.mem x hx
    rw [hgone _ hn hc] at hp'
    cases hp'
  have hnodup : (results.map Prod.fst).Nodup := by
    rw [map_append, nodup_append]
    refine ⟨hadded.nodup, hbase.nodup, ?_⟩
    rintro n hn _ hn' rfl
    obtain ⟨x, hx, rfl⟩ := mem_map.mp hn
    obtain ⟨y, hy, heq⟩ := mem_map.mp hn'
    exact hfresh y hy (heq ▸ (Finset.mem_filter.mp (hadded.mem x hx).1).1)
  have hperm := mergeSort_perm results fun a b => decide (b.2 ≤ a.2)
  have hbest : IsBest current score k p ((sortByScore results).take k) := by
    refine ⟨?_, fun x hx => ?_, ?_⟩
    · exact ((hperm.map _).nodup_iff.mpr hnodup).sublist ((take_sublist _ _).map _)
    · rcases mem_append.mp (hperm.mem_iff.mp (mem_of_mem_take hx)) with hx | hx
      · obtain ⟨hn, hrest⟩ := hadded.mem x hx
        exact ⟨(Finset.mem_filter.mp hn).2, hrest⟩
      · obtain ⟨hn, hp', hscore⟩ := hbase.mem x hx
        obtain ⟨hmem, hvector⟩ := hcovers x.1 (hfresh x hx)
        exact ⟨hmem.mp hn, (hp _ hn (hfresh x hx)).mp hp', hvector hn ▸ hscore⟩
    · rw [map_take, map_sortByScore, map_append, hadded.scores, hbase.scores,
        ← scores_add score hcovers hp hgone]
      exact topK_add hk _ _
  exact ⟨hnodup, hbest, hbest.scores.trans (hexact ..).scores.symm⟩

/-- The nodes that are in neither map are those counted too often. -/
lemma len_eq_iff : (buildDeltaSnapshot base current changes).len = some current.nodes.card ↔
    ∀ n ∈ changes, n ∉ current.nodes → n ∈ base.nodes := by
  set removed := (buildDeltaSnapshot base current changes).removed with hremoved
  have hbase := base.nodes.card_filter_add_card_filter_not (· ∈ changes)
  have hcurrent := current.nodes.card_filter_add_card_filter_not (· ∈ changes)
  have hinvalid := removed.card_filter_add_card_filter_not (· ∈ base.nodes)
  have hadded : current.nodes.filter (· ∈ changes) = changes.filter (· ∈ current.nodes) := by
    ext n
    simp [and_comm]
  have hkept : current.nodes.filter (· ∉ changes) = base.nodes.filter (· ∉ changes) := by
    ext n
    simp only [Finset.mem_filter, and_congr_left_iff]
    exact fun hn => (hcovers n hn).1.symm
  have hold : removed.filter (· ∈ base.nodes) = base.nodes.filter (· ∈ changes) := by
    ext n
    simp only [hremoved, buildDeltaSnapshot, Finset.mem_filter]
    tauto
  have hnew : (removed.filter (· ∉ base.nodes)).card = 0 ↔
      ∀ n ∈ changes, n ∉ current.nodes → n ∈ base.nodes := by
    simp only [Finset.card_eq_zero, Finset.filter_eq_empty_iff, hremoved, buildDeltaSnapshot,
      Finset.mem_filter, not_not, and_imp]
    exact forall₂_congr fun n _ => ⟨fun h hn => h fun hc => absurd hc hn,
      fun h hn => (em (n ∈ current.nodes)).elim hn h⟩
  have hlen : (buildDeltaSnapshot base current changes).len =
      if removed.card ≤ base.nodes.card + (changes.filter (· ∈ current.nodes)).card then
        some (base.nodes.card + (changes.filter (· ∈ current.nodes)).card - removed.card)
      else none := rfl
  rw [hold] at hinvalid
  rw [hadded, hkept] at hcurrent
  rw [← hnew, hlen]
  split_ifs with hle
  · rw [Option.some.injEq]
    omega
  · exact iff_of_false not_false fun hzero => by omega

end Built

/-- **A delta is searched as a full snapshot is**, and has its length, if and only if the number of
results does not overflow and no node was added and removed since the base. -/
theorem delta_asFull_iff (hnsw : Hnsw V β) (hexact : hnsw.Exact) (base current : VectorMap V)
    (changes : Finset NodeId) (hcovers : Covers changes base current) (score : V → β) (k : ℕ)
    (predicate : NodeId → Bool) :
    ((∃ r, (buildDeltaSnapshot base current changes).search hnsw score k = some r ∧
        AsFull hnsw current score k (fun _ => true) r) ∧
      (∃ r, (buildDeltaSnapshot base current changes).searchWithFilter hnsw score k predicate =
        some r ∧ AsFull hnsw current score k predicate r) ∧
      (buildDeltaSnapshot base current changes).len = some current.nodes.card) ↔
    k + 10 < 2 ^ 64 ∧ ∀ n ∈ changes, n ∉ current.nodes → n ∈ base.nodes := by
  rw [len_eq_iff hcovers]
  by_cases hk : k + 10 < 2 ^ 64
  · obtain ⟨m, hsearchK, hm⟩ : ∃ m, searchK k = some m ∧ k ≤ m :=
      ⟨_, if_pos hk, (Nat.le_add_right k 10).trans (le_max_right _ _)⟩
    set d := buildDeltaSnapshot base current changes
    have hgone : ∀ n ∈ base.nodes, n ∈ changes → n ∈ d.removed :=
      fun n hn hc => Finset.mem_filter.mpr ⟨hc, fun _ => hn⟩
    have hstays : ∀ n ∉ changes, n ∉ d.removed := fun n hn hr => hn (Finset.mem_filter.mp hr).1
    have hids : ∀ n ∉ changes, n ∉ (hnsw d.added score (fun _ => true) m).map Prod.fst := by
      rintro n hn hmem
      obtain ⟨x, hx, rfl⟩ := mem_map.mp hmem
      exact hn (Finset.mem_filter.mp ((hexact ..).mem x hx).1).1
    have hall : ∃ r, d.search hnsw score k = some r ∧
        AsFull hnsw current score k (fun _ => true) r := by
      refine ⟨_, congrArg (Option.map _) hsearchK,
        (asFull_merge score _ _ hcovers hexact ?_ ?_ hm).2⟩
      · exact fun n _ hc => by simp [hstays n hc, hids n hc]
      · exact fun n hn hc => by simp [hgone n hn hc]
    have hfilter : ∃ r, d.searchWithFilter hnsw score k predicate = some r ∧
        AsFull hnsw current score k predicate r := by
      obtain ⟨hnodup, hmerge⟩ := asFull_merge score predicate
        (fun n => predicate n && n ∉ d.removed) hcovers hexact
        (fun n _ hc => by simp [hstays n hc]) (fun n hn hc => by simp [hgone n hn hc]) hm
      refine ⟨_, ?_, hmerge⟩
      rw [DeltaIndex.searchWithFilter, hsearchK, Option.map_some]
      exact congrArg (fun l => some ((sortByScore l).take k))
        (retainFirst_of_nodup hnodup fun _ _ => not_mem_nil)
    exact ⟨fun h => ⟨hk, h.2.2⟩, fun h => ⟨hall, hfilter, h.2⟩⟩
  · refine iff_of_false (fun ⟨⟨r, hr, _⟩, _⟩ => ?_) fun h => hk h.1
    rw [DeltaIndex.search, searchK, if_neg hk] at hr
    cases hr

/-- The index that sorts its contents. -/
lemma exact_sorted : Hnsw.Exact (V := V) (β := β) fun m score p k =>
    (sortByScore ((m.nodes.filter (p ·)).toList.map fun n => (n, score (m.vector n)))).take k := by
  intro m score p k
  have hperm := mergeSort_perm
    ((m.nodes.filter (p ·)).toList.map fun n => (n, score (m.vector n))) fun a b => decide (b.2 ≤ a.2)
  refine ⟨?_, fun x hx => ?_, ?_⟩
  · refine ((hperm.map Prod.fst).nodup_iff.mpr ?_).sublist ((take_sublist _ _).map _)
    rw [map_map]
    exact (map_id _).symm ▸ Finset.nodup_toList _
  · obtain ⟨n, hn, rfl⟩ := mem_map.mp (hperm.mem_iff.mp (mem_of_mem_take hx))
    rw [Finset.mem_toList, Finset.mem_filter] at hn
    exact ⟨hn.1, hn.2, rfl⟩
  · rw [map_take, map_sortByScore, map_map, ← Multiset.map_coe, Finset.coe_toList]
    rfl

theorem delta_asFull_updated : ∃ hnsw : Hnsw ℕ ℕ, hnsw.Exact ∧
    (buildDeltaSnapshot ⟨{⟨1⟩}, fun _ => 0⟩ ⟨{⟨2⟩}, fun _ => 0⟩ {⟨1⟩, ⟨2⟩}).len = some 1 := by
  have hcovers : Covers {⟨1⟩, ⟨2⟩} ⟨{⟨1⟩}, fun _ => 0⟩ ⟨{⟨2⟩}, fun _ => 0⟩ := fun n hn => by
    rw [Finset.mem_insert, Finset.mem_singleton, not_or] at hn
    simp [hn.1, hn.2]
  exact ⟨_, exact_sorted, ((delta_asFull_iff _ exact_sorted _ _ _ hcovers id 1
    fun _ => true).mpr ⟨by decide, by decide⟩).2.2⟩

/-- A node that was added and removed since an empty base, and a search for all that there is. -/
theorem delta_not_asFull : ∃ hnsw : Hnsw ℕ ℕ, hnsw.Exact ∧
    Covers {⟨1⟩} ⟨∅, fun _ => 0⟩ ⟨∅, fun _ => 0⟩ ∧
    (buildDeltaSnapshot ⟨∅, fun _ => 0⟩ ⟨∅, fun _ => 0⟩ {⟨1⟩}).len = none ∧
    (buildDeltaSnapshot ⟨∅, fun _ => 0⟩ ⟨∅, fun _ => 0⟩ ∅).search hnsw id (2 ^ 64 - 1) = none :=
  ⟨_, exact_sorted, fun _ _ => by simp, rfl, rfl⟩

end Aletheia.VectorSnapshot
