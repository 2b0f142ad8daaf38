import Aletheia.ChainSealing
import Aletheia.Machine

/-!
# The state of the sealer

The sealer keeps its records in memory and in the log, with the head and a running index of the
entities. A record that belongs at the end is appended to the log and to the index; one that belongs
before others makes the sealer write the log and build the index anew. The store is called after the
records were changed, and an error of the store ends the call: memory is then ahead of the log, the
index and the head.
-/

namespace Aletheia.Provenance

open List Machine

/-! ### The entity index -/

structure EntityOccurrence where
  recordIdx : ℕ
  leafPos : ℕ
  versionId : UInt64
deriving DecidableEq, Repr

/-- Where the versions of an entity are sealed; an entity that is not in the map has no occurrence. -/
abbrev EntityIndex := EntityKind × UInt64 → List EntityOccurrence

namespace EntityIndex

def push (index : EntityIndex) (recordIdx : ℕ) (ref : VersionRef × ℕ) : EntityIndex :=
  let entity := (ref.1.1, ref.1.2.1)
  Function.update index entity (index entity ++ [⟨recordIdx, ref.2, ref.1.2.2⟩])

def pushRecord (index : EntityIndex) (recordIdx : ℕ) (record : ChainTxRecord) : EntityIndex :=
  record.entityRefs.zipIdx.foldl (fun index ref => index.push recordIdx ref) index

def build (records : List ChainTxRecord) : EntityIndex :=
  records.zipIdx.foldl (fun index r => index.pushRecord r.2 r.1) fun _ => []

lemma build_append (records : List ChainTxRecord) (record : ChainTxRecord) :
    build (records ++ [record]) = (build records).pushRecord records.length record := by
  simp [build, zipIdx_append, foldl_append]

end EntityIndex

/-! ### The sealer -/

/-- What becomes of a call of the store; a failed one may have reached the file. -/
inductive StoreOutcome where
  | ok
  | failed (written : Bool)
deriving DecidableEq, Repr

structure Sealer where
  inner : ChainInner
  index : EntityIndex
  log : List ChainTxRecord

variable (sha : List UInt8 → Digest) (src : VersionSource) (genesis : ChainHead)

/-- `seal_one` with its calls of the store. -/
def Sealer.sealOne (s : Sealer) (a : PendingTx × StoreOutcome) : Option Sealer :=
  match shellOf sha src a.1 with
  | none => some s
  | some shell =>
    let idx := (before s.inner.records shell).length
    let records := refoldSuffix sha genesis (s.inner.records.insertIdx idx shell) idx
    let isTail := decide (idx + 1 = records.length)
    let log := if isTail then s.log ++ records.drop idx else records
    match a.2 with
    | .failed written =>
      some ⟨{ s.inner with records := records }, s.index, if written then log else s.log⟩
    | .ok =>
      let index := if isTail then (records.drop idx).foldl (fun i r => i.pushRecord idx r) s.index
        else EntityIndex.build records
      some ⟨⟨records, headOf genesis records⟩, index, log⟩

def Sealer.init : Sealer := ⟨⟨[], genesis⟩, fun _ => [], []⟩

/-- The records in memory are in strict canonical order, numbered and folded from the genesis, and
the head, the index and the log go with them. -/
structure Sealer.Consistent (s : Sealer) : Prop where
  ordered : s.inner.records.Pairwise fun a b => a.key < b.key
  folded : Folded sha genesis s.inner.records
  head : s.inner.head = headOf genesis s.inner.records
  index : s.index = EntityIndex.build s.inner.records
  log : s.log = s.inner.records

/-- The store does not fail, and no record has the key of the new one. -/
def Sealer.Regular (s : Sealer) (a : PendingTx × StoreOutcome) : Prop :=
  a.2 = .ok ∧ ∀ shell ∈ shellOf sha src a.1, ∀ r ∈ s.inner.records, r.key ≠ shell.key

variable {sha src genesis} {s s' : Sealer} {a : PendingTx × StoreOutcome}

namespace Sealer

lemma inner_sealOne (hok : a.2 = .ok) (hs : s.sealOne sha src genesis a = some s') :
    s'.inner = Provenance.sealOne sha src genesis s.inner a.1 := by
  rw [sealOne_eq]
  cases hshell : shellOf sha src a.1 with
  | none =>
    simp only [sealOne, hshell, Option.some.injEq] at hs
    rw [hs]
  | some shell =>
    simp only [sealOne, hshell, hok, Option.some.injEq] at hs
    rw [← hs]

lemma consistent_sealOne (h : Consistent sha genesis s) (hregular : Regular sha src s a)
    (hs : s.sealOne sha src genesis a = some s') : Consistent sha genesis s' := by
  obtain ⟨hok, hnew⟩ := hregular
  cases hshell : shellOf sha src a.1 with
  | none =>
    simp only [sealOne, hshell, Option.some.injEq] at hs
    exact hs ▸ h
  | some shell =>
    have hbefore : Folded sha genesis (before s.inner.records shell) := by
      have hfolded := h.folded
      rw [← before_append_behind s.inner.records shell] at hfolded
      exact hfolded.of_append
    have hordered := ordered_insert ChainTxRecord.key (fun _ _ => Iff.rfl) (hnew shell hshell)
      h.ordered
    simp only [sealOne, hshell, hok, insertIdx_before, refoldSuffix_eq hbefore,
      Option.some.injEq, length_refoldFrom, decide_eq_true_eq] at hs
    subst hs
    -- at the end, nothing comes behind the new record
    have hend : (before s.inner.records shell).length + 1 =
        (before s.inner.records shell ++ shell :: behind s.inner.records shell).length →
        behind s.inner.records shell = [] ∧ before s.inner.records shell = s.inner.records := by
      intro hlength
      rw [length_append, length_cons] at hlength
      have hnil := length_eq_zero_iff.mp (show (behind s.inner.records shell).length = 0 by omega)
      have hsplit := before_append_behind s.inner.records shell
      rw [hnil, append_nil] at hsplit
      exact ⟨hnil, hsplit⟩
    refine ⟨(pairwise_refoldFrom fun _ _ _ => rfl).mpr hordered, refoldFrom_refoldFrom, rfl, ?_, ?_⟩
    · dsimp only
      split_ifs with htail
      · obtain ⟨hnil, hall⟩ := hend htail
        rw [hnil, hall, refoldFrom_append, h.folded, drop_left, h.index]
        exact (EntityIndex.build_append _ _).symm
      · rfl
    · dsimp only
      split_ifs with htail
      · obtain ⟨hnil, hall⟩ := hend htail
        rw [hnil, hall, refoldFrom_append, h.folded, drop_left, h.log]
      · rfl

lemma mem_bodies_run {acts : List (PendingTx × StoreOutcome)} (h : Consistent sha genesis s)
    (hregular : Machine.Along (sealOne sha src genesis) (Regular sha src) s acts)
    (hrun : run (sealOne sha src genesis) s acts = some s') (b : Body) :
    b ∈ s'.inner.bodies ↔ b ∈ s.inner.bodies ∨ ∃ a ∈ acts, bodyOf sha src a.1 = some b := by
  induction acts generalizing s with
  | nil =>
    cases hrun
    simp
  | cons a acts ih =>
    obtain ⟨s₁, hs₁, hrun⟩ := run_cons hrun
    obtain ⟨hp, hregular⟩ := hregular
    simp only [hs₁] at hregular
    rw [ih (consistent_sealOne h hp hs₁) hregular hrun, inner_sealOne hp.1 hs₁,
      mem_bodies_sealOne h.folded, exists_mem_cons_iff, or_assoc]

lemma consistent_init : Consistent sha genesis (init genesis) := ⟨.nil, rfl, rfl, rfl, rfl⟩

end Sealer

/-- **The state of the sealer is consistent** after every sequence of calls in which the store does
not fail and no two transactions have one key; the digest of its head then depends only on which
transactions were sealed. -/
theorem sealer_consistent (sha : List UInt8 → Digest) (src : VersionSource) (genesis : ChainHead)
    (acts : List (PendingTx × StoreOutcome)) (s : Sealer)
    (hregular : Machine.Along (Sealer.sealOne sha src genesis) (Sealer.Regular sha src)
      (.init genesis) acts)
    (hrun : Machine.run (Sealer.sealOne sha src genesis) (.init genesis) acts = some s) :
    s.Consistent sha genesis ∧
    ∀ acts' s', Machine.Along (Sealer.sealOne sha src genesis) (Sealer.Regular sha src)
        (.init genesis) acts' →
      Machine.run (Sealer.sealOne sha src genesis) (.init genesis) acts' = some s' →
      (∀ b, (∃ a ∈ acts, bodyOf sha src a.1 = some b) ↔ ∃ a ∈ acts', bodyOf sha src a.1 = some b) →
      s.inner.head.digest = s'.inner.head.digest := by
  have hinv : ∀ {acts s}, Machine.Along (Sealer.sealOne sha src genesis) (Sealer.Regular sha src)
      (.init genesis) acts →
      run (Sealer.sealOne sha src genesis) (.init genesis) acts = some s →
      s.Consistent sha genesis := fun hregular hrun =>
    invariant_run (fun _ _ _ => Sealer.consistent_sealOne) Sealer.consistent_init hregular
      hrun
  refine ⟨hinv hregular hrun, fun acts' s' hregular' hrun' hsame => ?_⟩
  have h := hinv hregular hrun
  have h' := hinv hregular' hrun'
  rw [h.head, h'.head]
  refine digest_headOf_eq h.folded h'.folded rfl ?_
  -- both lists are in the order of the keys, and have the same elements
  have hordered : ∀ {s : Sealer}, s.Consistent sha genesis → s.inner.bodies.Pairwise
      fun a b => key a.1 a.2.1 a.2.2.1 < key b.1 b.2.1 b.2.2.1 :=
    fun h => pairwise_map.mpr h.ordered
  refine eq_of_mem_iff_of_ordered _ (hordered h) (hordered h') fun b => ?_
  exact (Sealer.mem_bodies_run Sealer.consistent_init hregular hrun b).trans
    ((or_congr Iff.rfl (hsame b)).trans
      (Sealer.mem_bodies_run Sealer.consistent_init hregular' hrun' b).symm)

section Runs

/-- A transaction that wrote a node, and its record before it has its place. -/
def nodeTx (ts : Int64) : PendingTx := ⟨ts, 0, 1, 0, [(.node, 1, 1)]⟩

def nodeShell (ts : Int64) : ChainTxRecord :=
  ⟨0, ts, 0, 1, 0, [Vector.replicate 32 108], [(.node, 1, 1)], Vector.replicate 32 0⟩

def nodeGenesis : ChainHead := .genesis domainHash 0 0

lemma shellOf_nodeTx (ts : Int64) :
    shellOf domainHash (fun _ => some namedNode) (nodeTx ts) = some (nodeShell ts) := by
  simp [shellOf, resolveRefs, nodeTx, nodeShell, versionLeaf, domainHash_leafInput]

/-- The append fails: the record is in memory and not in the log. -/
theorem sealer_inconsistent :
    ∃ s, Machine.run (Sealer.sealOne domainHash (fun _ => some namedNode) nodeGenesis)
        (.init nodeGenesis) [(nodeTx 1, .failed false)] = some s ∧
      ¬ s.Consistent domainHash nodeGenesis := by
  simp only [run, Sealer.sealOne, shellOf_nodeTx, Option.bind_some, Option.some.injEq,
    exists_eq_left']
  intro h
  exact absurd (congrArg List.length h.log) (by decide +kernel)

/-- The later transaction is sealed first. -/
theorem sealer_consistent_outOfOrder :
    ∃ s, Machine.run (Sealer.sealOne domainHash (fun _ => some namedNode) nodeGenesis)
        (.init nodeGenesis) [(nodeTx 2, .ok), (nodeTx 1, .ok)] = some s ∧
      s.inner.records.length = 2 ∧ s.Consistent domainHash nodeGenesis := by
  have hrun : ∃ s, run (Sealer.sealOne domainHash (fun _ => some namedNode) nodeGenesis)
      (.init nodeGenesis) [(nodeTx 2, .ok), (nodeTx 1, .ok)] = some s ∧
      s.inner.records.length = 2 := by
    simp only [run, Sealer.sealOne, shellOf_nodeTx, Option.bind_some, Option.some.injEq,
      exists_eq_left']
    decide +kernel
  obtain ⟨s, hs, hlength⟩ := hrun
  refine ⟨s, hs, hlength, (sealer_consistent _ _ _ _ s ?_ hs).1⟩
  simp only [Machine.Along, Sealer.Regular, Sealer.sealOne, shellOf_nodeTx, Option.mem_some_iff,
    forall_eq']
  refine ⟨⟨trivial, by simp [Sealer.init]⟩, ⟨trivial, fun r hr hkey => ?_⟩, trivial⟩
  have hts : ∀ r ∈ [nodeShell 2], r.commitTs.toInt ≠ 1 := by decide +kernel
  have hr : r.commitTs ∈ [nodeShell 2].map ChainTxRecord.commitTs := by
    rw [← map_refoldFrom ChainTxRecord.commitTs fun _ _ _ => rfl]
    exact mem_map_of_mem hr
  simp only [map_cons, map_nil, mem_singleton] at hr
  exact hts _ mem_cons_self (hr ▸ congrArg (fun k : Key => (ofLex k).1) hkey)

end Runs

end Aletheia.Provenance
