import Mathlib.Data.List.Dedup
import Aletheia.ChainSealing

/-!
# Rebuilding the tail of the chain

A commit captures the versions its buffer names and, for what it deleted or retracted, the head of the
entity after the commit; the capture is queued and sealed later, in any order. After a restart the
tail of the chain is rebuilt from the recovered history: its versions are grouped by their commit
timestamp, and the groups beyond the wall clock of the head are sealed.

The rebuilt chain is the live one exactly when the queue lost nothing at or below the head's wall
clock, and beyond it every capture is what its transaction left in the history.
-/

namespace Aletheia.Provenance

variable {pending : PendingTx}

/-! ### Capture -/

/-- The writes of a transaction's buffer, with the ids that the capture reads. -/
inductive BufferedWrite where
  | createNode (nodeId versionId : UInt64)
  | updateNode (nodeId versionId : UInt64)
  | createEdge (edgeId versionId : UInt64)
  | updateEdge (edgeId versionId : UInt64)
  | deleteNode (nodeId : UInt64)
  | retractNode (nodeId : UInt64)
  | deleteEdge (edgeId : UInt64)
  | retractEdge (edgeId : UInt64)
deriving DecidableEq

structure ChainCapture where
  txId : UInt64
  refs : List VersionRef
  closingNodes : List UInt64
  closingEdges : List UInt64

/-- A committed transaction, with the heads of the entities as they are read after its commit. -/
structure CommittedTx where
  txId : UInt64
  operations : List BufferedWrite
  commitTs : Int64
  commitTsLogical : UInt32
  anchorLsn : UInt64
  currentNodeVersion : UInt64 → Option UInt64
  currentEdgeVersion : UInt64 → Option UInt64

namespace CommittedTx

variable (t : CommittedTx)

def precapture : ChainCapture where
  txId := t.txId
  refs := t.operations.filterMap fun
    | .createNode id vid | .updateNode id vid => some (.node, id, vid)
    | .createEdge id vid | .updateEdge id vid => some (.edge, id, vid)
    | _ => none
  closingNodes := t.operations.filterMap fun
    | .deleteNode id | .retractNode id => some id
    | _ => none
  closingEdges := t.operations.filterMap fun
    | .deleteEdge id | .retractEdge id => some id
    | _ => none

/-- `finalize_chain_capture`. -/
def finalizeCapture (cap : ChainCapture) : PendingTx where
  commitTsMicros := t.commitTs
  commitTsLogical := t.commitTsLogical
  txId := cap.txId
  anchorLsn := t.anchorLsn
  entityRefs := cap.refs ++
    (cap.closingNodes.filterMap fun id =>
      (t.currentNodeVersion id).map fun vid => (.node, id, vid)) ++
    cap.closingEdges.filterMap fun id => (t.currentEdgeVersion id).map fun vid => (.edge, id, vid)

def capture : PendingTx := t.finalizeCapture t.precapture

def stamp : Stamp := stampOf t.commitTs t.commitTsLogical

end CommittedTx

/-! ### Restart -/

/-- A version of the recovered history: what it is and when its transaction time starts. -/
structure StoredVersion where
  ref : VersionRef
  wallclock : Int64
  logical : UInt32
deriving DecidableEq

def StoredVersion.time (v : StoredVersion) : Int64 × UInt32 := (v.wallclock, v.logical)

def refsAt (history : List StoredVersion) (time : Int64 × UInt32) : List VersionRef :=
  (history.filter fun v => v.time = time).map (·.ref)

/-- The commit timestamps of the history, in their order. -/
def commitTimes (history : List StoredVersion) : List (Int64 × UInt32) :=
  (history.map StoredVersion.time).dedup.insertionSort fun a b =>
    stampOf a.1 a.2 ≤ stampOf b.1 b.2

section

variable (sha : List UInt8 → Digest) (src : VersionSource) (genesis : ChainHead)

/-- The genesis after a restart: its digest is read from the checkpoint. -/
def reopenedGenesis (genesisLsn : UInt64) (genesisTs : Int64) : ChainHead :=
  ⟨0, genesis.genesisDigest, genesisTs, genesisLsn, genesis.genesisDigest⟩

/-- `ProvenanceChain::open` on the records of the log. -/
def openChain (log : List ChainTxRecord) : ChainInner :=
  let records := canonicalOrder log
  ⟨records, headOf genesis records⟩

/-- The transaction that the rebuild makes of the versions with one timestamp. -/
def groupTx (history : List StoredVersion) (anchorLsn : UInt64) (time : Int64 × UInt32) :
    PendingTx where
  commitTsMicros := time.1
  commitTsLogical := time.2
  txId := UInt64.ofInt time.1.toInt
  anchorLsn
  entityRefs := refsAt history time

/-- The timestamps beyond the head, which are sealed. -/
def unsealedTimes (head : ChainHead) (history : List StoredVersion) : List (Int64 × UInt32) :=
  (commitTimes history).filter fun time => ¬ (head.seq ≠ 0 ∧ time.1 ≤ head.commitTs)

def rebuildChainTail (inner : ChainInner) (history : List StoredVersion) : ChainInner :=
  sealAll sha src genesis inner
    ((unsealedTimes inner.head history).map (groupTx history inner.head.anchorLsn))

/-- The chain of the transactions, sealed live in this order. -/
def live (txs : List CommittedTx) : ChainInner :=
  sealAll sha src genesis ⟨[], genesis⟩ (txs.map CommittedTx.capture)

/-- The chain after a crash at which the transactions `arrived` had been sealed and logged in this
order. -/
def restarted (genesisLsn : UInt64) (genesisTs : Int64) (arrived : List CommittedTx)
    (history : List StoredVersion) : ChainInner :=
  let log := (live sha src genesis arrived).records
  let genesis' := reopenedGenesis genesis genesisLsn genesisTs
  rebuildChainTail sha src genesis' (openChain genesis' log) history

end

/-! ### References that resolve -/

section Resolved

variable {sha : List UInt8 → Digest} {src : VersionSource} {refs refs' : List VersionRef}

variable (src refs) in
/-- The references that the source has, in their order. -/
def resolved : List VersionRef :=
  (refs.mergeSort fun a b => decide (refKey a ≤ refKey b)).filter fun r => (src r).isSome

lemma refKey_injective : Function.Injective refKey := by
  rintro ⟨k, id, vid⟩ ⟨k', id', vid'⟩ h
  obtain ⟨hk, h⟩ := Prod.mk.inj (toLex.injective h)
  obtain ⟨hid, hvid⟩ := Prod.mk.inj (toLex.injective h)
  obtain rfl := UInt64.toNat_inj.mp hid
  obtain rfl := UInt64.toNat_inj.mp hvid
  cases k <;> cases k' <;> first | rfl | exact absurd hk (by simp [EntityKind.tag])

lemma resolved_perm : (resolved src refs).Perm (refs.filter fun r => (src r).isSome) :=
  (List.mergeSort_perm _ _).filter _

lemma resolved_eq_iff : resolved src refs = resolved src refs' ↔
    (refs.filter fun r => (src r).isSome).Perm (refs'.filter fun r => (src r).isSome) := by
  constructor
  · intro h
    exact (resolved_perm.symm.trans (h ▸ List.Perm.refl _)).trans resolved_perm
  · intro h
    have hsorted : ∀ l, (resolved src l).Pairwise fun a b => refKey a ≤ refKey b := by
      intro l
      have hsort := @List.pairwise_mergeSort _ (fun a b => decide (refKey a ≤ refKey b))
        (fun a b c hab hbc => by simp only [decide_eq_true_eq] at *; exact hab.trans hbc)
        (fun a b => by simpa using le_total (refKey a) (refKey b)) l
      exact (hsort.imp fun h => of_decide_eq_true h).filter _
    refine List.Perm.eq_of_pairwise (fun a b _ _ hab hba => refKey_injective (le_antisymm hab hba))
      (hsorted refs) (hsorted refs') ?_
    exact (resolved_perm.trans h).trans resolved_perm.symm

lemma resolveRefs_eq : resolveRefs sha src refs = (resolved src refs).filterMap fun r =>
    (src r).map fun input => (r, versionLeaf sha input) := by
  rw [resolveRefs, resolved, List.filterMap_filter]
  congr 1
  funext r
  cases src r <;> rfl

variable (sha) in
lemma map_fst_resolveRefs : (resolveRefs sha src refs).map Prod.fst = resolved src refs := by
  rw [resolveRefs_eq]
  have hall : ∀ r ∈ resolved src refs, (src r).isSome := fun r hr => (List.mem_filter.mp hr).2
  generalize resolved src refs = l at hall
  induction l with
  | nil => rfl
  | cons r l ih =>
    obtain ⟨input, hinput⟩ := Option.isSome_iff_exists.mp (hall r (by simp))
    simp [hinput, ih fun r' hr' => hall r' (List.mem_cons_of_mem _ hr')]

variable (sha) in
lemma bodyOf_eq : bodyOf sha src pending = if resolved src pending.entityRefs = [] then none
    else some (pending.commitTsMicros, pending.commitTsLogical,
      (resolveRefs sha src pending.entityRefs).map Prod.snd, resolved src pending.entityRefs) := by
  have hempty : (resolveRefs sha src pending.entityRefs).isEmpty = true ↔
      resolved src pending.entityRefs = [] := by
    rw [← map_fst_resolveRefs sha, List.map_eq_nil_iff, List.isEmpty_iff]
  simp only [bodyOf, shellOf, hempty]
  split
  · rfl
  · simp [ChainTxRecord.body, map_fst_resolveRefs]

variable (sha) in
lemma bodyOf_ne_none :
    bodyOf sha src pending ≠ none ↔ ∃ r ∈ pending.entityRefs, (src r).isSome := by
  have hnil : resolved src pending.entityRefs = [] ↔
      pending.entityRefs.filter (fun r => (src r).isSome) = [] :=
    ⟨fun h => (h ▸ resolved_perm.symm).eq_nil, fun h => (h ▸ resolved_perm).eq_nil⟩
  rw [bodyOf_eq, ← not_iff_not, not_not]
  simp only [hnil, List.filter_eq_nil_iff, not_exists, not_and]
  split
  · next h => simpa using h
  · next h => simpa using h

lemma bodyOf_eq_iff {p q : PendingTx} (hts : p.commitTsMicros = q.commitTsMicros)
    (hlogical : p.commitTsLogical = q.commitTsLogical) : bodyOf sha src p = bodyOf sha src q ↔
      resolved src p.entityRefs = resolved src q.entityRefs := by
  rw [bodyOf_eq, bodyOf_eq, resolveRefs_eq, resolveRefs_eq, hts, hlogical]
  constructor
  · intro h
    split at h <;> split at h
    · next hp hq => rw [hp, hq]
    · cases h
    · cases h
    · simp only [Option.some.injEq, Prod.mk.injEq] at h
      exact h.2.2.2
  · intro h
    rw [h]

end Resolved

/-! ### The head of an opened chain -/

section Opened

variable {sha : List UInt8 → Digest} {genesis : ChainHead} {inner : ChainInner}
  {genesis' : ChainHead}

variable (h : Sealed sha genesis inner)

include h

lemma openChain_eq :
    openChain genesis' inner.records = ⟨inner.records, headOf genesis' inner.records⟩ := by
  have horder : canonicalOrder inner.records = inner.records := by
    refine List.mergeSort_of_pairwise (h.ordered.imp fun {a b} hab => ?_)
    exact decide_eq_true ((ChainTxRecord.key_lt_iff hab.ne).mpr hab).le
  rw [openChain, horder]

lemma Sealed.openChain (hgenesis : genesis'.digest = genesis.digest) :
    Sealed sha genesis' (openChain genesis' inner.records) := by
  rw [openChain_eq h]
  refine ⟨h.ordered, ?_, rfl⟩
  have hfolded := h.folded
  rwa [Folded, ← hgenesis] at hfolded

lemma Sealed.le_head_iff {w : Int64} (hseq : genesis.seq = 0) :
    inner.head.seq ≠ 0 ∧ w ≤ inner.head.commitTs ↔ ∃ b ∈ inner.bodies, w ≤ b.1 := by
  rw [h.head]
  rcases eq_or_ne inner.records [] with hnil | hne
  · simp [ChainInner.bodies, hnil, headOf, hseq]
  · have hnumber := (headOf_folded h.folded hne).1
    have hpos := List.length_pos_iff.mpr hne
    have hlast : (headOf genesis inner.records).commitTs = (inner.records.getLast hne).commitTs := by
      simp [headOf, List.getLast?_eq_some_getLast hne]
    rw [hlast]
    constructor
    · rintro ⟨-, hle⟩
      exact ⟨_, List.mem_map_of_mem (List.getLast_mem hne), hle⟩
    · rintro ⟨b, hb, hle⟩
      refine ⟨by omega, ?_⟩
      obtain ⟨r, hr, rfl⟩ := List.mem_map.mp hb
      have hordered := h.ordered
      rw [← List.dropLast_append_getLast hne] at hordered hr
      rcases List.mem_append.mp hr with hr | hr
      · have hlt := (List.pairwise_append.mp hordered).2.2 r hr _ (List.mem_singleton_self _)
        have hwall : r.commitTs ≤ (inner.records.getLast hne).commitTs := by
          rcases Prod.Lex.toLex_lt_toLex.mp hlt with hlt | ⟨heq, -⟩
          · exact Int64.le_iff_toInt_le.mpr hlt.le
          · exact Int64.le_iff_toInt_le.mpr heq.le
        exact Int64.le_trans hle hwall
      · rwa [List.mem_singleton.mp hr] at hle

end Opened

/-! ### The rebuilt chain -/

/-- The time of the transaction, as the history has it. -/
def CommittedTx.time (t : CommittedTx) : Int64 × UInt32 := (t.commitTs, t.commitTsLogical)

section Rebuilt

variable (src : VersionSource) {t : CommittedTx}

/-- The chain gets a record for the transaction when it is sealed live. -/
def Visible (t : CommittedTx) : Prop := ∃ r ∈ t.capture.entityRefs, (src r).isSome

/-- A transaction at or beyond the wall clock was sealed before the crash. -/
def Covered (arrived : List CommittedTx) (wallclock : Int64) : Prop :=
  ∃ u ∈ arrived, Visible src u ∧ wallclock ≤ u.commitTs

def Written (history : List StoredVersion) (t : CommittedTx) : Prop :=
  t.time ∈ history.map StoredVersion.time

instance (history : List StoredVersion) (t : CommittedTx) : Decidable (Written history t) :=
  inferInstanceAs (Decidable (_ ∈ _))

/-- At or below the wall clock of the head the transaction was sealed before the crash, if it has
versions at all; beyond it, what the live capture found is what the history has. -/
def Agrees (arrived : List CommittedTx) (history : List StoredVersion) (t : CommittedTx) : Prop :=
  (Covered src arrived t.commitTs →
    (Visible src t ↔ Written history t) ∧ (Written history t → t ∈ arrived)) ∧
  (¬ Covered src arrived t.commitTs →
    (t.capture.entityRefs.filter fun r => (src r).isSome).Perm (refsAt history t.time))

/-- The history is that of the transactions, which are in commit order, and its versions can be
read. -/
structure Recovered (txs : List CommittedTx) (history : List StoredVersion) : Prop where
  ordered : txs.Pairwise fun t u => t.stamp < u.stamp
  owned : ∀ v ∈ history, ∃ t ∈ txs, t.time = v.time
  stored : ∀ v ∈ history, (src v.ref).isSome

/-- The chain has one record for each commit timestamp of the history, with the references and the
leaves of the live chain, and the digest of its head. -/
structure RebuildsLive (rebuilt live : ChainInner) (history : List StoredVersion) : Prop where
  times : rebuilt.records.map (fun r => (r.commitTs, r.commitTsLogical)) = commitTimes history
  bodies : rebuilt.bodies = live.bodies
  digest : rebuilt.head.digest = live.head.digest

variable {src} {sha : List UInt8 → Digest} {genesis : ChainHead} {txs arrived : List CommittedTx}
  {history : List StoredVersion}

lemma mem_commitTimes {time : Int64 × UInt32} :
    time ∈ commitTimes history ↔ time ∈ history.map StoredVersion.time := by
  rw [commitTimes, (List.perm_insertionSort _ _).mem_iff, List.mem_dedup]

lemma commitTimes_ordered :
    (commitTimes history).Pairwise fun a b => stampOf a.1 a.2 < stampOf b.1 b.2 := by
  have : IsTrans (Int64 × UInt32) fun a b => stampOf a.1 a.2 ≤ stampOf b.1 b.2 :=
    ⟨fun _ _ _ => le_trans⟩
  have : Std.Total fun a b : Int64 × UInt32 => stampOf a.1 a.2 ≤ stampOf b.1 b.2 :=
    ⟨fun _ _ => le_total _ _⟩
  have hsorted := List.pairwise_insertionSort
    (fun a b : Int64 × UInt32 => stampOf a.1 a.2 ≤ stampOf b.1 b.2)
    (history.map StoredVersion.time).dedup
  have hnodup : (commitTimes history).Nodup :=
    (List.perm_insertionSort _ _).nodup_iff.mpr (List.nodup_dedup _)
  refine (hsorted.and hnodup).imp fun {a b} hab => lt_of_le_of_ne hab.1 fun heq => hab.2 ?_
  obtain ⟨hw, hl⟩ := stampOf_inj heq
  exact Prod.ext hw hl

lemma mem_of_stamp (h : Recovered src txs history) {t u : CommittedTx} (ht : t ∈ txs) (hu : u ∈ txs)
    (heq : t.stamp = u.stamp) : t = u := by
  by_contra hne
  have hpair : txs.Pairwise fun t u => t.stamp ≠ u.stamp := h.ordered.imp fun hlt => hlt.ne
  have : Std.Symm fun t u : CommittedTx => t.stamp ≠ u.stamp := ⟨fun _ _ h => h.symm⟩
  exact hpair.forall ht hu hne heq

lemma stamps_of_sublist (h : Recovered src txs history) (hnodup : arrived.Nodup)
    (hsub : arrived ⊆ txs) :
    (arrived.map CommittedTx.capture).Pairwise fun p q => p.stamp ≠ q.stamp := by
  rw [List.pairwise_map]
  refine hnodup.imp_of_mem fun {t u} ht hu hne heq => hne ?_
  exact mem_of_stamp h (hsub ht) (hsub hu) heq

variable (src sha genesis) in
lemma mem_live
    (hdistinct : (arrived.map CommittedTx.capture).Pairwise fun p q => p.stamp ≠ q.stamp) :
    Sealed sha genesis (live sha src genesis arrived) ∧
      ∀ b, b ∈ (live sha src genesis arrived).bodies ↔
        ∃ t ∈ arrived, bodyOf sha src t.capture = some b := by
  have hgenesis : Sealed sha genesis ⟨[], genesis⟩ := ⟨.nil, rfl, rfl⟩
  have hall := hgenesis.sealAll src hdistinct (by simp [ChainInner.bodies])
  obtain ⟨hsealed, hmem⟩ := hall
  refine ⟨hsealed, fun b => (hmem b).trans ?_⟩
  simp [ChainInner.bodies]

variable (sha) in
lemma visible_iff : Visible src t ↔ ∃ b, bodyOf sha src t.capture = some b := by
  rw [Visible, ← bodyOf_ne_none sha, Option.ne_none_iff_exists']

lemma covered_iff {inner : ChainInner} {w : Int64}
    (hmem : ∀ b, b ∈ inner.bodies ↔ ∃ t ∈ arrived, bodyOf sha src t.capture = some b) :
    (∃ b ∈ inner.bodies, w ≤ b.1) ↔ Covered src arrived w := by
  constructor
  · rintro ⟨b, hb, hle⟩
    obtain ⟨t, ht, hbody⟩ := (hmem b).mp hb
    have hts : b.1 = t.commitTs := (stampOf_inj (stamp_of_bodyOf hbody)).1
    exact ⟨t, ht, (visible_iff sha).mpr ⟨b, hbody⟩, hts ▸ hle⟩
  · rintro ⟨t, ht, hvisible, hle⟩
    obtain ⟨b, hbody⟩ := (visible_iff sha).mp hvisible
    have hts : b.1 = t.commitTs := (stampOf_inj (stamp_of_bodyOf hbody)).1
    exact ⟨b, (hmem b).mpr ⟨t, ht, hbody⟩, hts ▸ hle⟩

/-- The records of the rebuilt chain: those it had, and a group for every timestamp that no wall clock
of theirs covers. -/
lemma mem_rebuildChainTail {inner : ChainInner} (hinner : Sealed sha genesis inner)
    (hseq : genesis.seq = 0)
    (hmem : ∀ b, b ∈ inner.bodies ↔ ∃ t ∈ arrived, bodyOf sha src t.capture = some b) :
    Sealed sha genesis (rebuildChainTail sha src genesis inner history) ∧
      ∀ b, b ∈ (rebuildChainTail sha src genesis inner history).bodies ↔
        (∃ t ∈ arrived, bodyOf sha src t.capture = some b) ∨
        ∃ time ∈ commitTimes history, ¬ Covered src arrived time.1 ∧
          bodyOf sha src (groupTx history 0 time) = some b := by
  have htimes : ∀ time, time ∈ unsealedTimes inner.head history ↔
      time ∈ commitTimes history ∧ ¬ Covered src arrived time.1 := by
    intro time
    rw [unsealedTimes, List.mem_filter, decide_eq_true_eq, hinner.le_head_iff hseq, covered_iff hmem]
  have hdistinct : ((unsealedTimes inner.head history).map
      (groupTx history inner.head.anchorLsn)).Pairwise fun p q => p.stamp ≠ q.stamp := by
    rw [List.pairwise_map]
    exact (commitTimes_ordered.filter _).imp fun hlt => hlt.ne
  have hnew : ∀ b ∈ inner.bodies, ∀ p ∈ (unsealedTimes inner.head history).map
      (groupTx history inner.head.anchorLsn), b.stamp ≠ p.stamp := by
    intro b hb p hp heq
    obtain ⟨time, htime, rfl⟩ := List.mem_map.mp hp
    refine ((htimes time).mp htime).2 ((covered_iff hmem).mp ⟨b, hb, ?_⟩)
    rw [(stampOf_inj heq).1]
    exact Int64.le_refl _
  obtain ⟨hsealed, hall⟩ := hinner.sealAll src hdistinct hnew
  have hgroup : ∀ time, bodyOf sha src (groupTx history inner.head.anchorLsn time) =
      bodyOf sha src (groupTx history 0 time) := fun time => by
    refine (bodyOf_eq_iff ?_ ?_).mpr ?_ <;> rfl
  refine ⟨hsealed, fun b => (hall b).trans ?_⟩
  refine or_congr (hmem b) ⟨?_, ?_⟩
  · rintro ⟨p, hp, hb⟩
    obtain ⟨time, htime, rfl⟩ := List.mem_map.mp hp
    obtain ⟨hin, hnot⟩ := (htimes time).mp htime
    exact ⟨time, hin, hnot, hgroup time ▸ hb⟩
  · rintro ⟨time, hin, hnot, hb⟩
    exact ⟨_, List.mem_map_of_mem ((htimes time).mpr ⟨hin, hnot⟩), (hgroup time).trans hb⟩

variable (sha genesis) in
lemma mem_restarted (genesisLsn : UInt64) (genesisTs : Int64)
    (hgenesis : genesis.genesisDigest = genesis.digest) (h : Recovered src txs history)
    (hnodup : arrived.Nodup) (hsub : arrived ⊆ txs) :
    Sealed sha (reopenedGenesis genesis genesisLsn genesisTs)
        (restarted sha src genesis genesisLsn genesisTs arrived history) ∧
      ∀ b, b ∈ (restarted sha src genesis genesisLsn genesisTs arrived history).bodies ↔
        (∃ t ∈ arrived, bodyOf sha src t.capture = some b) ∨
        ∃ time ∈ commitTimes history, ¬ Covered src arrived time.1 ∧
          bodyOf sha src (groupTx history 0 time) = some b := by
  obtain ⟨hlog, hmem⟩ := mem_live src sha genesis (stamps_of_sublist h hnodup hsub)
  have hopen := hlog.openChain (show (reopenedGenesis genesis genesisLsn genesisTs).digest = _ from
    hgenesis)
  refine mem_rebuildChainTail hopen rfl fun b => ?_
  rw [← hmem b, openChain_eq hlog]
  rfl

lemma stored_refsAt (h : Recovered src txs history) (time : Int64 × UInt32) :
    (refsAt history time).filter (fun r => (src r).isSome) = refsAt history time := by
  refine List.filter_eq_self.mpr fun r hr => ?_
  obtain ⟨v, hv, rfl⟩ := List.mem_map.mp hr
  exact h.stored v (List.mem_filter.mp hv).1

lemma refsAt_ne_nil {time : Int64 × UInt32} :
    refsAt history time ≠ [] ↔ time ∈ history.map StoredVersion.time := by
  rw [refsAt, ne_eq, List.map_eq_nil_iff, List.filter_eq_nil_iff]
  simp

variable (sha) in
lemma exists_bodyOf_groupTx (h : Recovered src txs history) {time : Int64 × UInt32}
    (htime : time ∈ history.map StoredVersion.time) :
    ∃ b, bodyOf sha src (groupTx history 0 time) = some b := by
  refine Option.ne_none_iff_exists'.mp ((bodyOf_ne_none sha).mpr ?_)
  obtain ⟨v, hv, rfl⟩ := List.mem_map.mp htime
  exact ⟨v.ref, List.mem_map_of_mem (List.mem_filter.mpr ⟨hv, by simp⟩), h.stored v hv⟩

variable (sha) in
lemma bodyOf_capture_eq_iff (h : Recovered src txs history) (t : CommittedTx) :
    bodyOf sha src t.capture = bodyOf sha src (groupTx history 0 t.time) ↔
      (t.capture.entityRefs.filter fun r => (src r).isSome).Perm (refsAt history t.time) := by
  have hiff : bodyOf sha src t.capture = bodyOf sha src (groupTx history 0 t.time) ↔
      resolved src t.capture.entityRefs = resolved src (refsAt history t.time) :=
    bodyOf_eq_iff rfl rfl
  rw [hiff, resolved_eq_iff, stored_refsAt h]

def Body.time (b : Body) : Int64 × UInt32 := (b.1, b.2.1)

lemma time_of_bodyOf {b : Body} (h : bodyOf sha src pending = some b) :
    b.time = (pending.commitTsMicros, pending.commitTsLogical) := by
  obtain ⟨hts, hlogical⟩ := stampOf_inj (stamp_of_bodyOf h)
  exact Prod.ext hts hlogical

lemma eq_of_time (h : Recovered src txs history) {t u : CommittedTx} (ht : t ∈ txs) (hu : u ∈ txs)
    (heq : t.time = u.time) : t = u := by
  refine mem_of_stamp h ht hu ?_
  obtain ⟨hts, hlogical⟩ := Prod.mk.inj heq
  rw [CommittedTx.stamp, CommittedTx.stamp, hts, hlogical]

lemma exists_tx (h : Recovered src txs history) {time : Int64 × UInt32}
    (htime : time ∈ history.map StoredVersion.time) : ∃ t ∈ txs, t.time = time := by
  obtain ⟨v, hv, rfl⟩ := List.mem_map.mp htime
  exact h.owned v hv

lemma covered_self (ht : t ∈ arrived) (hvisible : Visible src t) : Covered src arrived t.commitTs :=
  ⟨t, ht, hvisible, Int64.le_refl _⟩

section Compare

variable {rebuilt lived : ChainInner} (h : Recovered src txs history) (hsub : arrived ⊆ txs)
  (hrebuilt : ∀ b, b ∈ rebuilt.bodies ↔ (∃ t ∈ arrived, bodyOf sha src t.capture = some b) ∨
    ∃ time ∈ commitTimes history, ¬ Covered src arrived time.1 ∧
      bodyOf sha src (groupTx history 0 time) = some b)
  (hlived : ∀ b, b ∈ lived.bodies ↔ ∃ t ∈ txs, bodyOf sha src t.capture = some b)

include h hsub hrebuilt hlived

variable (hagrees : ∀ t ∈ txs, Agrees src arrived history t)

include hagrees

lemma mem_bodies_of_agrees (b : Body) : b ∈ rebuilt.bodies ↔ b ∈ lived.bodies := by
  rw [hrebuilt, hlived]
  constructor
  · rintro (⟨t, ht, hb⟩ | ⟨time, htime, hnot, hb⟩)
    · exact ⟨t, hsub ht, hb⟩
    · obtain ⟨t, ht, rfl⟩ := exists_tx h (mem_commitTimes.mp htime)
      have hsame := (bodyOf_capture_eq_iff sha h t).mpr ((hagrees t ht).2 hnot)
      exact ⟨t, ht, hsame.trans hb⟩
  · rintro ⟨t, ht, hb⟩
    have hvisible : Visible src t := (visible_iff sha).mpr ⟨b, hb⟩
    by_cases hcovered : Covered src arrived t.commitTs
    · obtain ⟨hiff, harrived⟩ := (hagrees t ht).1 hcovered
      exact .inl ⟨t, harrived (hiff.mp hvisible), hb⟩
    · have hsame := (bodyOf_capture_eq_iff sha h t).mpr ((hagrees t ht).2 hcovered)
      have hbody := hsame.symm.trans hb
      have hwritten : refsAt history t.time ≠ [] := by
        intro hnil
        obtain ⟨r, hr, hsome⟩ := (bodyOf_ne_none sha).mp (by rw [hbody]; simp)
        rw [show (groupTx history 0 t.time).entityRefs = [] from hnil] at hr
        cases hr
      exact .inr ⟨t.time, mem_commitTimes.mpr (refsAt_ne_nil.mp hwritten), hcovered, hbody⟩

omit hlived in
lemma mem_times_of_agrees (time : Int64 × UInt32) :
    (∃ b ∈ rebuilt.bodies, b.time = time) ↔ time ∈ commitTimes history := by
  constructor
  · rintro ⟨b, hb, rfl⟩
    rcases (hrebuilt b).mp hb with ⟨t, ht, hbody⟩ | ⟨time, htime, -, hbody⟩
    · have hvisible : Visible src t := (visible_iff sha).mpr ⟨b, hbody⟩
      have hwritten := (((hagrees t (hsub ht)).1 (covered_self ht hvisible)).1).mp hvisible
      rw [time_of_bodyOf hbody]
      exact mem_commitTimes.mpr hwritten
    · rw [time_of_bodyOf hbody]
      exact htime
  · intro htime
    obtain ⟨t, ht, rfl⟩ := exists_tx h (mem_commitTimes.mp htime)
    by_cases hcovered : Covered src arrived t.commitTs
    · obtain ⟨hiff, harrived⟩ := (hagrees t ht).1 hcovered
      have hwritten : Written history t := mem_commitTimes.mp htime
      obtain ⟨b, hbody⟩ := (visible_iff sha).mp (hiff.mpr hwritten)
      exact ⟨b, (hrebuilt b).mpr (.inl ⟨t, harrived hwritten, hbody⟩), time_of_bodyOf hbody⟩
    · obtain ⟨b, hbody⟩ := exists_bodyOf_groupTx sha h (mem_commitTimes.mp htime)
      exact ⟨b, (hrebuilt b).mpr (.inr ⟨t.time, htime, hcovered, hbody⟩), time_of_bodyOf hbody⟩

omit hagrees

omit hlived in
/-- A record of the rebuilt chain with the transaction's time is its own, sealed before the crash, or
the group of its time. -/
lemma body_of_time {b : Body} (ht : t ∈ txs) (hb : b ∈ rebuilt.bodies) (htime : b.time = t.time) :
    (t ∈ arrived ∧ bodyOf sha src t.capture = some b) ∨
      (¬ Covered src arrived t.commitTs ∧ bodyOf sha src (groupTx history 0 t.time) = some b) := by
  rcases (hrebuilt b).mp hb with ⟨u, hu, hbody⟩ | ⟨time, -, hnot, hbody⟩
  · obtain rfl : u = t := eq_of_time h (hsub hu) ht ((time_of_bodyOf hbody).symm.trans htime)
    exact .inl ⟨hu, hbody⟩
  · obtain rfl : time = t.time := (time_of_bodyOf hbody).symm.trans htime
    exact .inr ⟨hnot, hbody⟩

lemma agrees_of_same (hbodies : ∀ b, b ∈ rebuilt.bodies ↔ b ∈ lived.bodies)
    (htimes : ∀ time, (∃ b ∈ rebuilt.bodies, b.time = time) ↔ time ∈ commitTimes history)
    (ht : t ∈ txs) : Agrees src arrived history t := by
  have hof := fun b hb htime => body_of_time (b := b) h hsub hrebuilt ht hb htime
  -- a transaction with a live record has one in the rebuilt chain, so it is in the history
  have hwritten : Visible src t → Written history t := by
    intro hvisible
    obtain ⟨b, hbody⟩ := (visible_iff sha).mp hvisible
    exact mem_commitTimes.mp ((htimes _).mp
      ⟨b, (hbodies b).mpr ((hlived b).mpr ⟨t, ht, hbody⟩), time_of_bodyOf hbody⟩)
  -- and a transaction of the history has a record, which is also a live one
  have hvisible : Written history t → Visible src t := by
    intro hw
    obtain ⟨b, hb, htime⟩ := (htimes t.time).mpr (mem_commitTimes.mpr hw)
    obtain ⟨u, hu, hbody⟩ := (hlived b).mp ((hbodies b).mp hb)
    obtain rfl : u = t := eq_of_time h hu ht ((time_of_bodyOf hbody).symm.trans htime)
    exact (visible_iff sha).mpr ⟨b, hbody⟩
  refine ⟨fun hcovered => ⟨⟨hwritten, hvisible⟩, fun hw => ?_⟩, fun hnot => ?_⟩
  · obtain ⟨b, hb, htime⟩ := (htimes t.time).mpr (mem_commitTimes.mpr hw)
    rcases hof b hb htime with ⟨harrived, -⟩ | ⟨hnot, -⟩
    · exact harrived
    · exact absurd hcovered hnot
  · refine (bodyOf_capture_eq_iff sha h t).mp ?_
    by_cases hv : Visible src t
    · obtain ⟨b, hbody⟩ := (visible_iff sha).mp hv
      have hb := (hbodies b).mpr ((hlived b).mpr ⟨t, ht, hbody⟩)
      rcases hof b hb (time_of_bodyOf hbody) with ⟨harrived, -⟩ | ⟨-, hgroup⟩
      · exact absurd (covered_self harrived hv) hnot
      · rw [hbody, hgroup]
    · have hnil : refsAt history t.time = [] :=
        not_not.mp fun hne => hv (hvisible (refsAt_ne_nil.mp hne))
      have hgroup : bodyOf sha src (groupTx history 0 t.time) = none := by
        refine not_not.mp fun hne => ?_
        obtain ⟨r, hr, -⟩ := (bodyOf_ne_none sha).mp hne
        rw [show (groupTx history 0 t.time).entityRefs = [] from hnil] at hr
        cases hr
      rw [hgroup]
      exact not_not.mp fun hne => hv ((bodyOf_ne_none sha).mp hne)

end Compare

variable {enableLsn genesisLsn : UInt64} {enableTs genesisTs : Int64}

lemma Recovered.nodup (h : Recovered src txs history) : txs.Nodup :=
  h.ordered.imp fun hlt heq => hlt.ne (congrArg _ heq)

lemma agrees_of_rebuildsLive (h : Recovered src txs history) (hnodup : arrived.Nodup)
    (hsub : arrived ⊆ txs) (hlives : RebuildsLive
      (restarted sha src (.genesis sha enableLsn enableTs) genesisLsn genesisTs arrived history)
      (live sha src (.genesis sha enableLsn enableTs) txs) history) :
    ∀ t ∈ txs, Agrees src arrived history t := by
  have hrebuilt := (mem_restarted sha (.genesis sha enableLsn enableTs) genesisLsn genesisTs rfl h
    hnodup hsub).2
  have hlived := (mem_live src sha (.genesis sha enableLsn enableTs)
    (stamps_of_sublist h h.nodup (List.Subset.refl txs))).2
  obtain ⟨htimes, hbodies, -⟩ := hlives
  refine fun t ht => agrees_of_same h hsub hrebuilt hlived (fun b => by rw [hbodies])
    (fun time => ?_) ht
  rw [← htimes]
  simp [ChainInner.bodies, Body.time, ChainTxRecord.body]

/-- **The rebuilt chain is the live one** exactly when every transaction agrees: at or below the wall
clock of the last sealed record nothing was lost, and beyond it the live captures are the versions of
the history. -/
theorem rebuilds_live_iff (h : Recovered src txs history) (hnodup : arrived.Nodup)
    (hsub : arrived ⊆ txs) :
    RebuildsLive
        (restarted sha src (.genesis sha enableLsn enableTs) genesisLsn genesisTs arrived history)
        (live sha src (.genesis sha enableLsn enableTs) txs) history ↔
      ∀ t ∈ txs, Agrees src arrived history t := by
  refine ⟨agrees_of_rebuildsLive h hnodup hsub, fun hagrees => ?_⟩
  obtain ⟨hsealed, hrebuilt⟩ := mem_restarted sha (.genesis sha enableLsn enableTs) genesisLsn
    genesisTs rfl h hnodup hsub
  obtain ⟨hlive, hlived⟩ := mem_live src sha (.genesis sha enableLsn enableTs)
    (stamps_of_sublist h h.nodup (List.Subset.refl txs))
  have hbodies := eq_of_mem_iff_of_ordered Body.stamp hsealed.bodies_ordered hlive.bodies_ordered
    (mem_bodies_of_agrees h hsub hrebuilt hlived hagrees)
  refine ⟨?_, hbodies, hsealed.digest_head_eq hlive rfl hbodies⟩
  refine eq_of_mem_iff_of_ordered (fun time : Int64 × UInt32 => stampOf time.1 time.2)
    (List.pairwise_map.mpr hsealed.ordered) commitTimes_ordered fun time => ?_
  rw [← mem_times_of_agrees h hsub hrebuilt hagrees]
  simp [ChainInner.bodies, Body.time, ChainTxRecord.body]

end Rebuilt

/-! ### Histories of two transactions -/

section Pairs

def anySource : VersionSource := fun _ => some namedNode

/-- The first creates a node; the second creates another node, or updates the first. -/
def creation : CommittedTx := ⟨1, [.createNode 1 1], 10, 0, 1, fun _ => none, fun _ => none⟩

def secondCreation : CommittedTx := ⟨2, [.createNode 2 2], 20, 0, 2, fun _ => none, fun _ => none⟩

def update : CommittedTx := ⟨2, [.updateNode 1 2], 20, 0, 2, fun _ => none, fun _ => none⟩

def creations : List StoredVersion := [⟨(.node, 1, 1), 10, 0⟩, ⟨(.node, 2, 2), 20, 0⟩]

/-- The update leaves a structural version beside its own, which carries the first one forward. -/
def creationAndUpdate : List StoredVersion :=
  [⟨(.node, 1, 1), 10, 0⟩, ⟨(.node, 1, 2), 20, 0⟩, ⟨(.node, 1, 4611686018427387907), 20, 0⟩]

lemma recovered_creations : Recovered anySource [creation, secondCreation] creations where
  ordered := by simp [CommittedTx.stamp, stampOf, creation, secondCreation, Prod.Lex.toLex_lt_toLex]
  owned := by simp [creations, CommittedTx.time, StoredVersion.time, creation, secondCreation]
  stored := fun _ _ => rfl

lemma recovered_creationAndUpdate : Recovered anySource [creation, update] creationAndUpdate where
  ordered := by simp [CommittedTx.stamp, stampOf, creation, update, Prod.Lex.toLex_lt_toLex]
  owned := by simp [creationAndUpdate, CommittedTx.time, StoredVersion.time, creation, update]
  stored := fun _ _ => rfl

lemma visible_creation : Visible anySource creation := ⟨(.node, 1, 1), by decide, rfl⟩

lemma visible_secondCreation : Visible anySource secondCreation := ⟨(.node, 2, 2), by decide, rfl⟩

/-- The second creation was queued and lost; the rebuild seals it. -/
theorem rebuilds_live_iff_lost_tail :
    Recovered anySource [creation, secondCreation] creations ∧
      RebuildsLive
        (restarted domainHash anySource (.genesis domainHash 1 0) 3 30 [creation] creations)
        (live domainHash anySource (.genesis domainHash 1 0) [creation, secondCreation]) creations := by
  refine ⟨recovered_creations,
    (rebuilds_live_iff recovered_creations (by simp) (by simp)).mpr fun t ht => ?_⟩
  simp only [List.mem_cons, List.not_mem_nil, or_false] at ht
  rcases ht with rfl | rfl
  · have hcovered := covered_self (List.mem_singleton_self creation) visible_creation
    exact ⟨fun _ => ⟨⟨fun _ => by decide, fun _ => visible_creation⟩, fun _ => by simp⟩,
      fun hnot => absurd hcovered hnot⟩
  · have hnot : ¬ Covered anySource [creation] secondCreation.commitTs := by
      rintro ⟨u, hu, -, hle⟩
      obtain rfl := List.mem_singleton.mp hu
      exact absurd hle (by decide)
    exact ⟨fun hcovered => absurd hcovered hnot, fun _ => by decide⟩

/-- A transaction lost behind one that was sealed stays unsealed, and an update is rebuilt with a
version that its live record does not have. -/
theorem rebuild_differs :
    ¬ RebuildsLive
        (restarted domainHash anySource (.genesis domainHash 1 0) 3 30 [secondCreation] creations)
        (live domainHash anySource (.genesis domainHash 1 0) [creation, secondCreation]) creations ∧
      ¬ RebuildsLive
        (restarted domainHash anySource (.genesis domainHash 1 0) 3 30 [] creationAndUpdate)
        (live domainHash anySource (.genesis domainHash 1 0) [creation, update])
        creationAndUpdate := by
  constructor
  · intro h
    have hagrees := agrees_of_rebuildsLive recovered_creations (by simp) (by simp) h creation (by simp)
    have hcovered : Covered anySource [secondCreation] creation.commitTs :=
      ⟨secondCreation, by simp, visible_secondCreation, by decide⟩
    have harrived := (hagrees.1 hcovered).2 (by decide)
    have hid := congrArg CommittedTx.txId (List.mem_singleton.mp harrived)
    exact absurd hid (by decide)
  · intro h
    have hagrees := agrees_of_rebuildsLive recovered_creationAndUpdate (by simp) (by simp) h update
      (by simp)
    have hnot : ¬ Covered anySource [] update.commitTs := by
      rintro ⟨u, hu, -⟩
      cases hu
    have hlength := (hagrees.2 hnot).length_eq
    exact absurd hlength (by decide)

end Pairs

end Aletheia.Provenance
