import Aletheia.Chain

/-!
# Choosing the versions that leave the hot tier

`identify_node_candidates` and `identify_edge_candidates` choose superseded versions of at least the
policy's age, in the policy's order, as many of an entity as leave it its minimum of hot versions.
They take a transaction time, which is in microseconds, for one in milliseconds, and the batch size
does not limit the choice.
-/

namespace Aletheia.MigrationService

open List

/-- The hot versions of nodes, or of edges, in the iteration order of the map. -/
structure HotTier (K X : Type) [DecidableEq K] where
  versions : AList (fun _ : VersionId => Version K X)
  heads : K → Option VersionId
  counts : K → ℕ
  counts_eq : ∀ k, counts k = versions.entries.countP (·.2.entity = k)

/-- A history that keeps its chains, with its versions in some order, is such a tier. -/
def HotTier.ofHistory {K X : Type} [DecidableEq K] (h : HistoricalStorage K X)
    (hcons : h.Consistent) (hchain : ∀ k, ∃ l, h.Chain k l)
    (versions : AList (fun _ : VersionId => Version K X))
    (hversions : ∀ id, versions.lookup id = h.getVersion id) : HotTier K X where
  versions := versions
  heads := h.heads
  counts := h.versionCounts
  counts_eq k := by
    obtain ⟨l, hl⟩ := hchain k
    have hnodup := Nodup.sublist ((filter_sublist (p := (·.2.entity = k))).map Sigma.fst)
      versions.nodupKeys
    rw [hl.count, countP_eq_length_filter, ← length_map (·.id), ← length_map Sigma.fst]
    refine ((perm_ext_iff_of_nodup hl.nodup hnodup).mpr fun id => ?_).length_eq
    simp only [mem_map, mem_filter, decide_eq_true_eq, Sigma.exists, hl.mem]
    constructor
    · rintro ⟨v, ⟨hv, hk⟩, rfl⟩
      exact ⟨v.id, v, ⟨AList.mem_lookup_iff.mp ((hversions _).trans hv), hk⟩, rfl⟩
    · rintro ⟨id, v, ⟨hv, hk⟩, rfl⟩
      have hget := (hversions _).symm.trans (AList.mem_lookup_iff.mpr hv)
      exact ⟨v, ⟨(hcons _ _ hget).symm ▸ hget, hk⟩, hcons _ _ hget⟩

structure MigrationPolicy where
  ageThreshold : ℕ
  minHotVersions : ℕ
  batchSize : ℕ
  enableLru : Bool

/-- An age is a number of nanoseconds. -/
structure MigrationCandidate where
  versionId : VersionId
  isNode : Bool
  age : ℕ
  estimatedSize : ℕ

variable {K X : Type} [DecidableEq K] (tier : HotTier K X) (policy : MigrationPolicy)
  (accessTimes : VersionId → Option ℕ) (estimatedSize : Version K X → ℕ) (isNode : Bool) (now : ℤ)

/-- The system clock, given in microseconds. -/
def currentWallclockMs : ℤ := if now < 0 then 0 else now / 1000

def age (v : Version K X) : ℕ :=
  (currentWallclockMs now - v.temporal.transactionTime.start.wallclock).toNat * 10 ^ 6

def mayGoBefore (a b : MigrationCandidate) : Bool :=
  if policy.enableLru then
    match accessTimes a.versionId, accessTimes b.versionId with
    | some s, some t => s ≤ t
    | none, some _ => true
    | some _, none => false
    | none, none => b.age ≤ a.age
  else b.age ≤ a.age

def sortCandidatesByPolicy (candidates : List MigrationCandidate) : List MigrationCandidate :=
  candidates.mergeSort (mayGoBefore policy accessTimes)

/-- The first loop of `identify_*_candidates`. -/
def allCandidates : List MigrationCandidate :=
  tier.versions.entries.filterMap fun ⟨id, v⟩ =>
    if tier.heads v.entity = some id then none
    else if v.temporal.isCurrentlyRecorded then none
    else if policy.ageThreshold ≤ age now v then some ⟨id, isNode, age now v, estimatedSize v⟩
    else none

/-- The second loop; `selected` counts the candidates taken so far. -/
def finalCandidates : (K → ℕ) → List MigrationCandidate → List MigrationCandidate
  | _, [] => []
  | selected, c :: cs =>
    match tier.versions.lookup c.versionId with
    | none => finalCandidates selected cs
    | some v =>
      if selected v.entity < tier.counts v.entity - policy.minHotVersions then
        c :: finalCandidates (Function.update selected v.entity (selected v.entity + 1)) cs
      else finalCandidates selected cs

def identifyCandidates : List MigrationCandidate :=
  finalCandidates tier policy (fun _ => 0)
    (sortCandidatesByPolicy policy accessTimes (allCandidates tier policy estimatedSize isNode now))

def identifyNodeCandidates (tier : HotTier NodeId Unit) (estimatedSize : Version NodeId Unit → ℕ) :
    List MigrationCandidate := identifyCandidates tier policy accessTimes estimatedSize true now

def identifyEdgeCandidates (tier : HotTier EdgeId Endpoints)
    (estimatedSize : Version EdgeId Endpoints → ℕ) : List MigrationCandidate :=
  identifyCandidates tier policy accessTimes estimatedSize false now

/-! ### What is chosen -/

/-- A version that is old enough, neither the head of its entity nor still recorded. -/
structure Eligible (id : VersionId) (v : Version K X) : Prop where
  hot : tier.versions.lookup id = some v
  notHead : tier.heads v.entity ≠ some id
  closed : v.temporal.isCurrentlyRecorded = false
  old : policy.ageThreshold ≤ age now v

def ids (cs : List MigrationCandidate) : List VersionId := cs.map MigrationCandidate.versionId

def ofEntity (k : K) (cs : List MigrationCandidate) : List MigrationCandidate :=
  cs.filter fun c => (tier.versions.lookup c.versionId).map Version.entity = some k

structure Selects (out : List MigrationCandidate) : Prop where
  eligible : ∀ c ∈ out, ∃ v, Eligible tier policy now c.versionId v ∧ c.age = age now v
  nodup : (ids out).Nodup
  minHot : ∀ k, min policy.minHotVersions (tier.counts k) ≤
    tier.versions.entries.countP fun e => e.2.entity = k ∧ e.1 ∉ ids out
  oldestFirst : policy.enableLru = false → out.Pairwise fun a b => b.age ≤ a.age
  /-- A version is left out if as many of its entity, no younger, are chosen as may leave. -/
  complete : policy.enableLru = false → ∀ id v, Eligible tier policy now id v → id ∈ ids out ∨
    (ofEntity tier v.entity out).length = tier.counts v.entity - policy.minHotVersions ∧
      ∀ c ∈ ofEntity tier v.entity out, age now v ≤ c.age

variable {tier policy estimatedSize isNode now} {c : MigrationCandidate}
  {cs out : List MigrationCandidate} {k : K}

lemma mem_allCandidates : c ∈ allCandidates tier policy estimatedSize isNode now ↔
    ∃ v, Eligible tier policy now c.versionId v ∧
      c = ⟨c.versionId, isNode, age now v, estimatedSize v⟩ := by
  simp only [allCandidates, mem_filterMap]
  constructor
  · rintro ⟨⟨id, v⟩, hmem, hc⟩
    dsimp only at hc
    split_ifs at hc with hhead hrec hold
    cases hc
    exact ⟨v, ⟨AList.mem_lookup_iff.mpr hmem, hhead, Bool.eq_false_iff.mpr hrec, hold⟩, rfl⟩
  · rintro ⟨v, hv, hc⟩
    refine ⟨⟨c.versionId, v⟩, AList.mem_lookup_iff.mp hv.hot, ?_⟩
    simp only [hv.notHead, hv.closed, hv.old, ↓reduceIte]
    exact congrArg some hc.symm

lemma nodup_allCandidates : (ids (allCandidates tier policy estimatedSize isNode now)).Nodup := by
  refine Nodup.sublist ?_ tier.versions.nodupKeys
  rw [allCandidates]
  induction tier.versions.entries with
  | nil => exact Sublist.slnil
  | cons e es ih =>
    rw [filterMap_cons]
    split
    next => exact ih.cons _
    next c hc =>
      dsimp only at hc
      split_ifs at hc
      cases hc
      exact ih.cons_cons _

lemma finalCandidates_sublist (selected : K → ℕ) :
    (finalCandidates tier policy selected cs).Sublist cs := by
  induction cs generalizing selected with
  | nil => exact Sublist.slnil
  | cons c cs ih =>
    rw [finalCandidates]
    split
    · exact (ih _).cons _
    · split
      · exact (ih _).cons_cons _
      · exact (ih _).cons _

lemma ofEntity_cons {v : Version K X} (hv : tier.versions.lookup c.versionId = some v) :
    ofEntity tier k (c :: cs) =
      if v.entity = k then c :: ofEntity tier k cs else ofEntity tier k cs := by
  simp [ofEntity, filter_cons, hv]

/-- Of each entity the first candidates are taken, as many as may leave. -/
lemma ofEntity_finalCandidates (selected : K → ℕ) :
    ofEntity tier k (finalCandidates tier policy selected cs) =
      (ofEntity tier k cs).take (tier.counts k - policy.minHotVersions - selected k) := by
  induction cs generalizing selected with
  | nil => simp [finalCandidates, ofEntity]
  | cons c cs ih =>
    rw [finalCandidates]
    rcases hv : tier.versions.lookup c.versionId with _ | v
    · simpa [ofEntity, hv] using ih selected
    · dsimp only
      by_cases hlt : selected v.entity < tier.counts v.entity - policy.minHotVersions
      · rw [if_pos hlt, ofEntity_cons hv, ofEntity_cons hv, ih]
        by_cases hk : v.entity = k
        · subst hk
          rw [if_pos rfl, if_pos rfl, Function.update_self, ← take_succ_cons]
          congr 1
          omega
        · rw [if_neg hk, if_neg hk, Function.update_of_ne (Ne.symm hk)]
      · rw [if_neg hlt, ih, ofEntity_cons hv]
        split_ifs with hk
        · subst hk
          simp [Nat.sub_eq_zero_of_le (not_lt.mp hlt)]
        · rfl

/-- Where no more candidates are versions of `k` than may leave, enough stay hot. -/
lemma minHot_le_of_length_le
    (h : (ofEntity tier k out).length ≤ tier.counts k - policy.minHotVersions) :
    min policy.minHotVersions (tier.counts k) ≤
      tier.versions.entries.countP fun e => e.2.entity = k ∧ e.1 ∉ ids out := by
  let leaving := tier.versions.entries.filter fun e => e.2.entity = k ∧ e.1 ∈ ids out
  have hsub : leaving.map Sigma.fst ⊆ ids (ofEntity tier k out) := by
    intro id hid
    obtain ⟨e, he, rfl⟩ := mem_map.mp hid
    obtain ⟨hmem, hk, hid⟩ : e ∈ tier.versions.entries ∧ e.2.entity = k ∧ e.1 ∈ ids out := by
      simpa [leaving] using he
    obtain ⟨c, hc, heq⟩ := mem_map.mp hid
    refine mem_map.mpr ⟨c, mem_filter.mpr ⟨hc, ?_⟩, heq⟩
    rw [heq, AList.mem_lookup_iff.mpr hmem]
    simpa using hk
  have hnodup : (leaving.map Sigma.fst).Nodup :=
    Nodup.sublist (filter_sublist.map _) tier.versions.nodupKeys
  have hle : leaving.length ≤ (ofEntity tier k out).length := by
    simpa [ids] using (subperm_of_subset hnodup hsub).length_le
  have hcounts := tier.counts_eq k
  rw [countP_eq_countP_filter_add _ _ fun e => e.1 ∈ ids out, countP_filter, countP_filter,
    countP_eq_length_filter] at hcounts
  simp only [← Bool.decide_and, ← decide_not] at hcounts
  change _ = leaving.length + _ at hcounts
  omega

lemma pairwise_sortCandidatesByPolicy (h : policy.enableLru = false) :
    (sortCandidatesByPolicy policy accessTimes cs).Pairwise fun a b => b.age ≤ a.age := by
  have hle : ∀ a b, mayGoBefore policy accessTimes a b = true ↔ b.age ≤ a.age := by
    simp [mayGoBefore, h]
  refine (pairwise_mergeSort (fun a b c hab hbc => ?_) (fun a b => ?_) cs).imp fun hab =>
    (hle _ _).mp hab
  · rw [hle] at *
    exact hbc.trans hab
  · rw [Bool.or_eq_true, hle, hle]
    exact le_total _ _

lemma mem_or_full (hsorted : cs.Pairwise fun a b => b.age ≤ a.age) (hc : c ∈ ofEntity tier k cs)
    (hout : ofEntity tier k out = (ofEntity tier k cs).take (tier.counts k - policy.minHotVersions)) :
    c ∈ out ∨ (ofEntity tier k out).length = tier.counts k - policy.minHotVersions ∧
      ∀ a ∈ ofEntity tier k out, c.age ≤ a.age := by
  have hpairwise : (ofEntity tier k cs).Pairwise fun a b => b.age ≤ a.age := hsorted.filter _
  rw [← take_append_drop (tier.counts k - policy.minHotVersions) (ofEntity tier k cs), ← hout]
    at hc hpairwise
  rcases mem_append.mp hc with hin | hdrop
  · exact .inl (mem_filter.mp hin).1
  · refine .inr ⟨?_, fun a ha => (pairwise_append.mp hpairwise).2.2 a ha c hdrop⟩
    have := length_pos_of_mem hdrop
    rw [length_drop] at this
    rw [hout, length_take]
    omega

lemma selects_finalCandidates (hperm : cs.Perm (allCandidates tier policy estimatedSize isNode now))
    (hsorted : policy.enableLru = false → cs.Pairwise fun a b => b.age ≤ a.age) :
    Selects tier policy now (finalCandidates tier policy (fun _ => 0) cs) := by
  have hsub : (finalCandidates tier policy (fun _ => 0) cs).Sublist cs := finalCandidates_sublist _
  refine ⟨fun c hc => ?_, ?_, fun k => minHot_le_of_length_le ?_,
    fun hage => (hsorted hage).sublist hsub, fun hage id v hv => ?_⟩
  · obtain ⟨v, hv, hcv⟩ := mem_allCandidates.mp (hperm.mem_iff.mp (hsub.subset hc))
    exact ⟨v, hv, by rw [hcv]⟩
  · exact Nodup.sublist (hsub.map _) ((hperm.map _).nodup_iff.mpr nodup_allCandidates)
  · rw [ofEntity_finalCandidates]
    exact length_take_le _ _
  · have hmem : ⟨id, isNode, age now v, estimatedSize v⟩ ∈ ofEntity tier v.entity cs := by
      refine mem_filter.mpr ⟨hperm.mem_iff.mpr (mem_allCandidates.mpr ⟨v, hv, rfl⟩), ?_⟩
      simp [hv.hot]
    exact (mem_or_full (hsorted hage) hmem (ofEntity_finalCandidates _)).imp_left mem_map_of_mem

/-- **The choice of versions to migrate**, of nodes and of edges. -/
theorem candidates_selected (policy : MigrationPolicy) (now : ℤ) :
    (∀ (tier : HotTier NodeId Unit) estimatedSize, Selects tier policy now
      (identifyNodeCandidates policy accessTimes now tier estimatedSize)) ∧
    ∀ (tier : HotTier EdgeId Endpoints) estimatedSize, Selects tier policy now
      (identifyEdgeCandidates policy accessTimes now tier estimatedSize) :=
  ⟨fun _ _ => selects_finalCandidates (mergeSort_perm _ _) (pairwise_sortCandidatesByPolicy _),
    fun _ _ => selects_finalCandidates (mergeSort_perm _ _) (pairwise_sortCandidatesByPolicy _)⟩

/-- Node 7 has three versions, of the year 2001; the third is the head. -/
def oldTier : HotTier NodeId Unit where
  versions := ([1, 2, 3].map fun n => ⟨.new n, ⟨.new n, ⟨7⟩,
    ⟨.fromStart ⟨10 ^ 15, 0⟩, ⟨⟨10 ^ 15, n⟩, ⟨10 ^ 15, n + 1⟩⟩⟩, ⟨0, ∅, (), none⟩, none, none⟩⟩).toAList
  heads _ := some (.new 3)
  counts _ := _
  counts_eq _ := rfl

/-- A week, one version to stay hot, one version in a batch. -/
def weekPolicy : MigrationPolicy := ⟨7 * 86400 * 10 ^ 9, 1, 1, false⟩

/-- In 2027 none of them has reached a week; without a threshold two are chosen, not one. -/
theorem candidates_missed :
    (oldTier.versions.lookup (.new 1)).map (·.temporal.transactionTime.stop.wallclock) =
      some (10 ^ 15) ∧
    ids (identifyNodeCandidates weekPolicy (fun _ => none) (18 * 10 ^ 14) oldTier fun _ => 0) = [] ∧
    ids (identifyNodeCandidates { weekPolicy with ageThreshold := 0 } (fun _ => none) (18 * 10 ^ 14)
      oldTier fun _ => 0) = [.new 1, .new 2] := by
  simp only [identifyNodeCandidates, identifyCandidates, sortCandidatesByPolicy]
  rw [mergeSort_of_pairwise (by decide +kernel), mergeSort_of_pairwise (by decide +kernel)]
  decide +kernel

end Aletheia.MigrationService
