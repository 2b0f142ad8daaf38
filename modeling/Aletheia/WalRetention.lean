import Aletheia.FlushCoordinator
import Aletheia.Machine

/-!
# Which segments are deleted

A rotation deletes the segments that are more than `segments_to_retain` ids behind the one it
closes, by number alone. `truncate_to_lsn` goes by the LSN range in the metadata of a closed
segment; that range covers every entry whose flush returned `Ok`. There is no other deletion, and
no consumer of the log is asked.
-/

namespace Aletheia.FlushCoordinator

open List Machine

/-- A coordinator, the entries whose flush returned `Ok` with their segment, and the bounds that
`truncate_to_lsn` was called with. -/
structure RetentionLog where
  coordinator : FlushCoordinator
  acknowledged : List (ℕ × ℕ)
  truncations : List ℕ

namespace RetentionLog

inductive Action where
  | flush (entries : List PendingEntry) (sync : Bool) (faults : Faults)
  | truncateToLsn (truncateLsn : ℕ)

def start (config : FlushConfig) (existing : List Segment) : RetentionLog :=
  ⟨new config existing, [], []⟩

/-- A batch goes to the segment with the current id, also if that is closed before the call
returns. -/
def step (s : RetentionLog) : Action → Option RetentionLog
  | .flush entries sync faults =>
    let result := s.coordinator.flush entries sync faults
    let batch := entries.map fun e => (result.1.currentSegmentId, e.lsn)
    some { s with
      coordinator := result.1
      acknowledged := if result.2.isOk then s.acknowledged ++ batch else s.acknowledged }
  | .truncateToLsn truncateLsn =>
    some { s with
      coordinator := s.coordinator.truncateToLsn truncateLsn
      truncations := truncateLsn :: s.truncations }

/-- A deleted segment held no entry beyond the bounds of the truncations so far. -/
def KeepsUntruncated (s : RetentionLog) : Prop :=
  ∀ seg ∈ s.coordinator.closed, seg.removal.isSome →
    ∀ a ∈ s.acknowledged, a.1 = seg.id → ∃ bound ∈ s.truncations, a.2 ≤ bound

/-- Why a segment may be gone. -/
def Accounted (s : RetentionLog) (seg : Segment) : Prop :=
  match seg.removal with
  | none => True
  | some (.truncation bound) =>
    bound ∈ s.truncations ∧ ∀ a ∈ s.acknowledged, a.1 = seg.id → a.2 < bound
  | some (.retention _) =>
    seg.id + s.coordinator.config.segmentsToRetain < s.coordinator.currentSegmentId

structure Inv (s : RetentionLog) : Prop where
  open_id : ∀ w ∈ s.coordinator.writer, w.id = s.coordinator.currentSegmentId
  closed_id : ∀ seg ∈ s.coordinator.closed, seg.id ≤ s.coordinator.currentSegmentId ∧
    (s.coordinator.writer.isSome → seg.id < s.coordinator.currentSegmentId)
  ack_id : ∀ a ∈ s.acknowledged, a.1 ≤ s.coordinator.currentSegmentId
  /-- the tracked range covers the open segment -/
  tracked : s.coordinator.writer.isSome → ∀ a ∈ s.acknowledged,
    a.1 = s.coordinator.currentSegmentId → a.2 ≤ s.coordinator.currentSegmentMaxLsn
  /-- the metadata covers the closed ones -/
  covered : ∀ seg ∈ s.coordinator.closed, ∀ m ∈ seg.metadata, ∀ a ∈ s.acknowledged,
    a.1 = seg.id → a.2 ≤ m.maxLsn
  accounted : ∀ seg ∈ s.coordinator.closed, s.Accounted seg

variable {c c' : FlushCoordinator} {acks new : List (ℕ × ℕ)} {bounds : List ℕ} {w w' : SegmentWriter}

/-- A segment is accounted for by what it was accounted for before, unless entries are acknowledged
in it. -/
lemma Accounted.mono {seg : Segment} {bounds' : List ℕ} (h : Accounted ⟨c, acks, bounds⟩ seg)
    (hconfig : c'.config = c.config) (hid : c.currentSegmentId ≤ c'.currentSegmentId)
    (hnew : ∀ a ∈ new, a.1 = seg.id → a ∈ acks) (hbounds : bounds ⊆ bounds') :
    Accounted ⟨c', new, bounds'⟩ seg := by
  unfold Accounted at h ⊢
  split
  · trivial
  next bound hr =>
    simp only [hr] at h
    exact ⟨hbounds h.1, fun a ha heq => h.2 a (hnew a ha heq) heq⟩
  next hr =>
    simp only [hr] at h
    rw [hconfig]
    exact h.trans_le hid

variable (h : Inv ⟨c, acks, bounds⟩)

include h

lemma Inv.mono (hsub : new ⊆ acks) : Inv ⟨c, new, bounds⟩ where
  open_id := h.open_id
  closed_id := h.closed_id
  ack_id a ha := h.ack_id a (hsub ha)
  tracked hopen a ha := h.tracked hopen a (hsub ha)
  covered seg hseg m hm a ha := h.covered seg hseg m hm a (hsub ha)
  accounted seg hseg := (h.accounted seg hseg).mono rfl le_rfl (fun _ ha _ => hsub ha) (List.Subset.refl _)

lemma Inv.next {files : List Segment} (hconfig : c'.config = c.config)
    (hid : c'.currentSegmentId = c.currentSegmentId + 1) (hclosed : c'.closed = c.closed ++ files)
    (hfiles : ∀ seg ∈ files, seg.id = c.currentSegmentId + 1 ∧ seg.removal = none ∧
      c'.writer = none) (hwriter : ∀ w ∈ c'.writer, w.id = c.currentSegmentId + 1) :
    Inv ⟨c', acks, bounds⟩ := by
  have hold : ∀ a ∈ acks, a.1 ≠ c.currentSegmentId + 1 := by
    intro a ha
    have hle : a.1 ≤ c.currentSegmentId := h.ack_id a ha
    omega
  refine ⟨?_, ?_, ?_, ?_, ?_, ?_⟩ <;> dsimp only
  · rw [hid]
    exact hwriter
  · rw [hid, hclosed]
    intro seg hseg
    rcases mem_append.mp hseg with hseg | hseg
    · have hle : seg.id ≤ c.currentSegmentId := (h.closed_id seg hseg).1
      exact ⟨Nat.le_succ_of_le hle, fun _ => Nat.lt_succ_of_le hle⟩
    · obtain ⟨hseg, _, hnone⟩ := hfiles seg hseg
      exact ⟨hseg.le, fun hsome => by simp [hnone] at hsome⟩
  · rw [hid]
    intro a ha
    exact Nat.le_succ_of_le (h.ack_id a ha)
  · rw [hid]
    intro _ a ha heq
    exact absurd heq (hold a ha)
  · rw [hclosed]
    intro seg hseg m hm a ha heq
    rcases mem_append.mp hseg with hseg | hseg
    · exact h.covered seg hseg m hm a ha heq
    · exact absurd (heq.trans (hfiles seg hseg).1) (hold a ha)
  · rw [hclosed]
    intro seg hseg
    rcases mem_append.mp hseg with hseg | hseg
    · exact (h.accounted seg hseg).mono hconfig (by omega) (fun _ ha _ => ha) (List.Subset.refl _)
    · unfold Accounted
      rw [(hfiles seg hseg).2.1]
      trivial

lemma Inv.ensureSegmentOpen (fault : Option OpenFault) :
    Inv ⟨(c.ensureSegmentOpen fault).1, acks, bounds⟩ ∧ ∀ w, (c.ensureSegmentOpen fault).2 = .ok w →
        (c.ensureSegmentOpen fault).1.writer = some w := by
  unfold FlushCoordinator.ensureSegmentOpen
  cases hw : c.writer with
  | some w =>
    refine ⟨h, ?_⟩
    rintro w' hw'
    rw [← Except.ok.inj hw']
    exact hw
  | none =>
    rcases fault with _ | (_ | _ | written)
    · obtain ⟨_, hmagic, _⟩ := (SegmentWriter.mk (c.currentSegmentId + 1) [] []).writeAll_none
        c.config.writeBufferSize walMagic
      obtain ⟨_, hversion, _⟩ := ((SegmentWriter.mk (c.currentSegmentId + 1) [] []).writeAll
        c.config.writeBufferSize walMagic ⟨none, none⟩).1.writeAll_none
        c.config.writeBufferSize [walVersion]
      refine ⟨h.next rfl rfl (append_nil _).symm (by simp) ?_, ?_⟩
      · rintro w' hw'
        rw [← Option.some.inj hw']
        exact hversion.trans hmagic
      · rintro w' hw'
        rw [← Except.ok.inj hw']
    · exact ⟨h.next rfl rfl (append_nil _).symm (by simp) (by simp), by simp⟩
    · exact ⟨h.next rfl rfl rfl (by simp) (by simp), by simp⟩
    · exact ⟨h.next rfl rfl rfl (by simp) (by simp), by simp⟩

variable (hw : c.writer = some w)

include hw

lemma Inv.write (hw' : c'.writer = some w') (hid : w'.id = w.id) (hconfig : c'.config = c.config)
    (hclosed : c'.closed = c.closed) (hcurrent : c'.currentSegmentId = c.currentSegmentId)
    (hmax : c.currentSegmentMaxLsn ≤ c'.currentSegmentMaxLsn)
    (hnew : ∀ a ∈ new, a.1 = c.currentSegmentId ∧ a.2 ≤ c'.currentSegmentMaxLsn) :
    Inv ⟨c', acks ++ new, bounds⟩ := by
  have hbehind : ∀ seg ∈ c.closed, seg.id < c.currentSegmentId := fun seg hseg =>
    (h.closed_id seg hseg).2 (by simp [hw])
  have hack : ∀ seg ∈ c.closed, ∀ a ∈ acks ++ new, a.1 = seg.id → a ∈ acks := by
    intro seg hseg a ha heq
    rcases mem_append.mp ha with ha | ha
    · exact ha
    · have h1 := (hnew a ha).1
      have h2 := hbehind seg hseg
      omega
  refine ⟨?_, ?_, ?_, ?_, ?_, ?_⟩ <;> dsimp only
  · rw [hw', hcurrent]
    rintro w₁ hw₁
    rw [← Option.some.inj hw₁, hid]
    exact h.open_id w hw
  · rw [hclosed, hcurrent]
    exact fun seg hseg => ⟨(hbehind seg hseg).le, fun _ => hbehind seg hseg⟩
  · rw [hcurrent]
    intro a ha
    rcases mem_append.mp ha with ha | ha
    · exact h.ack_id a ha
    · exact (hnew a ha).1.le
  · rw [hcurrent]
    intro _ a ha heq
    rcases mem_append.mp ha with ha | ha
    · exact (h.tracked (by simp [hw]) a ha heq).trans hmax
    · exact (hnew a ha).2
  · rw [hclosed]
    intro seg hseg m hm a ha heq
    exact h.covered seg hseg m hm a (hack seg hseg a ha heq) heq
  · rw [hclosed]
    intro seg hseg
    exact (h.accounted seg hseg).mono hconfig hcurrent.ge (hack seg hseg) (List.Subset.refl _)

lemma Inv.setWriter (hw' : c'.writer = some w') (hid : w'.id = w.id)
    (hconfig : c'.config = c.config) (hclosed : c'.closed = c.closed)
    (hcurrent : c'.currentSegmentId = c.currentSegmentId)
    (hmax : c.currentSegmentMaxLsn ≤ c'.currentSegmentMaxLsn) : Inv ⟨c', acks, bounds⟩ := by
  have hinv : Inv ⟨c', acks ++ [], bounds⟩ :=
    h.write hw hw' hid hconfig hclosed hcurrent hmax (by simp)
  rwa [append_nil] at hinv

lemma Inv.close {metadata : Option SegmentMetadata} (hid : w'.id = w.id)
    (hmetadata : ∀ m ∈ metadata, m.maxLsn = c.currentSegmentMaxLsn) (hconfig : c'.config = c.config)
    (hcurrent : c'.currentSegmentId = c.currentSegmentId) (hnone : c'.writer = none)
    (hclosed : c'.closed = c.closed ++ [⟨w'.id, w'.file, metadata, none⟩]) :
    Inv ⟨c', acks, bounds⟩ := by
  have hopen : w.id = c.currentSegmentId := h.open_id w hw
  refine ⟨?_, ?_, ?_, ?_, ?_, ?_⟩ <;> dsimp only
  · simp [hnone]
  · rw [hclosed, hcurrent, hnone]
    intro seg hseg
    refine ⟨?_, by simp⟩
    rcases mem_append.mp hseg with hseg | hseg
    · exact (h.closed_id seg hseg).1
    · rw [mem_singleton.mp hseg]
      exact (hid.trans hopen).le
  · rw [hcurrent]
    exact h.ack_id
  · simp [hnone]
  · rw [hclosed]
    intro seg hseg m hm a ha heq
    rcases mem_append.mp hseg with hseg | hseg
    · exact h.covered seg hseg m hm a ha heq
    · obtain rfl := mem_singleton.mp hseg
      rw [hmetadata m hm]
      exact h.tracked (by simp [hw]) a ha (heq.trans (hid.trans hopen))
  · rw [hclosed]
    intro seg hseg
    rcases mem_append.mp hseg with hseg | hseg
    · exact (h.accounted seg hseg).mono hconfig hcurrent.ge (fun _ ha _ => ha) (List.Subset.refl _)
    · obtain rfl := mem_singleton.mp hseg
      trivial

omit hw

lemma Inv.remove {bounds' : List ℕ} (mark : Segment → Option Removal)
    (hcurrent : c'.currentSegmentId = c.currentSegmentId) (hwriter : c'.writer = c.writer)
    (hmax : c'.currentSegmentMaxLsn = c.currentSegmentMaxLsn)
    (hclosed : c'.closed = c.closed.map fun seg => { seg with removal := mark seg })
    (haccounted : ∀ seg ∈ c.closed, Accounted ⟨c', acks, bounds'⟩ { seg with removal := mark seg }) :
    Inv ⟨c', acks, bounds'⟩ := by
  refine ⟨?_, ?_, ?_, ?_, ?_, ?_⟩ <;> dsimp only
  · rw [hwriter, hcurrent]
    exact h.open_id
  · rw [hclosed, hcurrent, hwriter]
    intro seg hseg
    obtain ⟨seg₀, hseg₀, rfl⟩ := mem_map.mp hseg
    exact h.closed_id seg₀ hseg₀
  · rw [hcurrent]
    exact h.ack_id
  · rw [hwriter, hcurrent, hmax]
    exact h.tracked
  · rw [hclosed]
    intro seg hseg
    obtain ⟨seg₀, hseg₀, rfl⟩ := mem_map.mp hseg
    exact h.covered seg₀ hseg₀
  · rw [hclosed]
    intro seg hseg
    obtain ⟨seg₀, hseg₀, rfl⟩ := mem_map.mp hseg
    exact haccounted seg₀ hseg₀

lemma Inv.cleanupOldSegments : Inv ⟨c.cleanupOldSegments, acks, bounds⟩ := by
  set retainFrom := c.currentSegmentId - c.config.segmentsToRetain with hretain
  refine h.remove (fun seg => if seg.removal.isNone ∧ seg.id < retainFrom then
      some (.retention retainFrom) else seg.removal) rfl rfl rfl ?_ ?_
  · refine map_congr_left fun seg _ => ?_
    split_ifs <;> rfl
  · intro seg hseg
    split_ifs with hold
    · show seg.id + c.config.segmentsToRetain < c.currentSegmentId
      omega
    · exact (h.accounted seg hseg).mono rfl le_rfl (fun _ ha _ => ha) (List.Subset.refl _)

lemma Inv.truncateToLsn (truncateLsn : ℕ) :
    Inv ⟨c.truncateToLsn truncateLsn, acks, truncateLsn :: bounds⟩ := by
  refine h.remove (fun seg => if (seg.removal.isNone && decide (seg.id < c.currentSegmentId) &&
      seg.metadata.any fun m => m.maxLsn < truncateLsn) then some (.truncation truncateLsn)
      else seg.removal) rfl rfl rfl ?_ ?_
  · refine map_congr_left fun seg _ => ?_
    split_ifs <;> rfl
  · intro seg hseg
    split_ifs with hremovable
    · refine ⟨mem_cons_self, fun a ha heq => ?_⟩
      simp only [Bool.and_eq_true, Option.any_eq_true, decide_eq_true_eq] at hremovable
      obtain ⟨_, m, hm, hlt⟩ := hremovable
      exact (h.covered seg hseg m hm a ha heq).trans_lt hlt
    · exact (h.accounted seg hseg).mono rfl le_rfl (fun _ ha _ => ha) (subset_cons_self _ _)

lemma setMetadata_close (hw : c.writer = some w) (hid : w'.id = w.id) (m : SegmentMetadata) :
    ((c.close w').setMetadata w'.id m).closed = c.closed ++ [⟨w'.id, w'.file, some m, none⟩] := by
  have hopen : w.id = c.currentSegmentId := h.open_id w hw
  have hother : ∀ seg ∈ c.closed,
      (if seg.id = w'.id then { seg with metadata := some m } else seg) = seg := by
    intro seg hseg
    have hlt : seg.id < c.currentSegmentId := (h.closed_id seg hseg).2 (by simp [hw])
    rw [if_neg (by omega)]
  simp only [setMetadata, FlushCoordinator.close, map_append, map_cons, map_nil, if_true]
  rw [map_congr_left hother, map_id']

lemma Inv.sealCurrent (faults : SealFaults) : Inv ⟨(c.sealCurrent faults).1, acks, bounds⟩ := by
  unfold FlushCoordinator.sealCurrent
  cases hw : c.writer with
  | none => exact h.cleanupOldSegments
  | some w =>
    have hid := w.id_flushBuf faults.flush
    dsimp only
    split
    next w' heq =>
      rw [heq] at hid
      exact h.setWriter hw rfl hid rfl rfl rfl le_rfl
    next w' heq =>
      rw [heq] at hid
      have hclosed : Inv ⟨c.close w', acks, bounds⟩ :=
        h.close hw hid (by simp) rfl rfl rfl rfl
      split_ifs
      · exact hclosed
      · exact hclosed
      · refine Inv.cleanupOldSegments (h.close hw hid ?_ rfl rfl rfl (setMetadata_close h hw hid _))
        simp
      · exact hclosed.cleanupOldSegments

lemma Inv.maybeRotateSegment (faults : SealFaults) :
    Inv ⟨(c.maybeRotateSegment faults).1, acks, bounds⟩ := by
  have hseal := h.sealCurrent faults
  unfold FlushCoordinator.maybeRotateSegment
  split_ifs
  · split
    next heq => rwa [heq] at hseal
    next heq => rwa [heq] at hseal
  · exact h

omit h

lemma le_foldl_max {α : Type} (f : α → ℕ) (xs : List α) (m : ℕ) :
    m ≤ xs.foldl (fun m x => max m (f x)) m ∧
      ∀ x ∈ xs, f x ≤ xs.foldl (fun m x => max m (f x)) m := by
  induction xs generalizing m with
  | nil => exact ⟨le_rfl, by simp⟩
  | cons x xs ih =>
    obtain ⟨hle, hall⟩ := ih (max m (f x))
    rw [foldl_cons]
    refine ⟨(le_max_left _ _).trans hle, fun y hy => ?_⟩
    rcases mem_cons.mp hy with rfl | hy
    · exact (le_max_right _ _).trans hle
    · exact hall y hy

@[simp] lemma currentSegmentId_sealCurrent (c : FlushCoordinator) (faults : SealFaults) :
    (c.sealCurrent faults).1.currentSegmentId = c.currentSegmentId := by
  unfold FlushCoordinator.sealCurrent
  split
  · rfl
  · split
    · rfl
    · split_ifs <;> rfl

@[simp] lemma currentSegmentId_maybeRotateSegment (c : FlushCoordinator) (faults : SealFaults) :
    (c.maybeRotateSegment faults).1.currentSegmentId = c.currentSegmentId := by
  have hseal := currentSegmentId_sealCurrent c faults
  unfold FlushCoordinator.maybeRotateSegment
  split_ifs
  · split
    next heq => rwa [heq] at hseal
    next heq => rwa [heq] at hseal
  · rfl

/-- What a call has acknowledged in the segment with the given id. -/
def batchAcks (entries : List PendingEntry) (id : ℕ) : List (ℕ × ℕ) :=
  entries.map fun e => (id, e.lsn)

lemma Inv.writeBatch (h : Inv ⟨c, acks, bounds⟩) (hw : c.writer = some w)
    (entries : List PendingEntry) (sync : Bool) (faults : Faults) :
    Inv ⟨(c.writeBatch w entries sync faults).1, if (c.writeBatch w entries sync faults).2.isOk then
        acks ++ batchAcks entries (c.writeBatch w entries sync faults).1.currentSegmentId
      else acks, bounds⟩ := by
  have hwritten := w.id_writeEntries c.config.writeBufferSize entries faults.writes
  unfold FlushCoordinator.writeBatch
  split
  next w₁ heq =>
    rw [heq] at hwritten
    exact h.setWriter hw rfl hwritten rfl rfl rfl le_rfl
  next w₁ heq =>
    rw [heq] at hwritten
    have hflushed := (w₁.id_flushBuf faults.flush).trans hwritten
    split
    next w₂ heq₂ =>
      rw [heq₂] at hflushed
      exact h.setWriter hw rfl hflushed rfl rfl rfl le_rfl
    next w₂ heq₂ =>
      rw [heq₂] at hflushed
      obtain ⟨hmax, hall⟩ := le_foldl_max PendingEntry.lsn entries c.currentSegmentMaxLsn
      by_cases hfails : sync ∧ c.config.syncOnFlush ∧ faults.sync
      · -- the fsync fails
        simp only [track, hfails, and_self, if_true, rollback]
        cases faults.setLen
        · exact h.setWriter hw rfl hflushed rfl rfl rfl hmax
        · exact h.setWriter hw rfl hflushed rfl rfl rfl hmax
      · simp only [track, hfails, if_false]
        have hnew : ∀ a ∈ batchAcks entries c.currentSegmentId, a.1 = c.currentSegmentId ∧
            a.2 ≤ entries.foldl (fun m e => max m e.lsn) c.currentSegmentMaxLsn := by
          intro a ha
          obtain ⟨e, he, rfl⟩ := mem_map.mp ha
          exact ⟨rfl, hall e he⟩
        set c₂ : FlushCoordinator := { c with
          writer := some w₂
          currentSegmentSize := c.currentSegmentSize + (batchBytes entries).length
          currentSegmentMinLsn := entries.foldl (fun m e => min m e.lsn) c.currentSegmentMinLsn
          currentSegmentMaxLsn := entries.foldl (fun m e => max m e.lsn) c.currentSegmentMaxLsn
          currentSegmentEntryCount := c.currentSegmentEntryCount + entries.length } with hc₂
        have hwrite : Inv ⟨c₂, acks ++ batchAcks entries c.currentSegmentId, bounds⟩ :=
          h.write hw rfl hflushed rfl rfl rfl hmax hnew
        have hrotate := hwrite.maybeRotateSegment faults.sealing
        have hid := currentSegmentId_maybeRotateSegment c₂ faults.sealing
        split
        next c₃ rotated heq₃ =>
          rw [heq₃] at hrotate hid
          simp only [Except.isOk, Except.toBool, if_true]
          rw [hid]
          exact hrotate
        next c₃ e heq₃ =>
          rw [heq₃] at hrotate
          exact hrotate.mono (subset_append_left _ _)

lemma Inv.flush (h : Inv ⟨c, acks, bounds⟩) (entries : List PendingEntry) (sync : Bool)
    (faults : Faults) : Inv ⟨(c.flush entries sync faults).1,
      if (c.flush entries sync faults).2.isOk then
        acks ++ batchAcks entries (c.flush entries sync faults).1.currentSegmentId
      else acks, bounds⟩ := by
  obtain ⟨hopen, hwriter⟩ := h.ensureSegmentOpen faults.openSegment
  unfold FlushCoordinator.flush
  by_cases hempty : entries.isEmpty
  · rw [if_pos hempty, isEmpty_iff.mp hempty]
    simpa [batchAcks] using h
  · rw [if_neg hempty]
    split
    next c₁ w heq =>
      rw [heq] at hopen hwriter
      exact hopen.writeBatch (hwriter w rfl) entries sync faults
    next c₁ e heq =>
      rw [heq] at hopen
      exact hopen

lemma inv_step {s s' : RetentionLog} {a : Action} (h : Inv s) (hs : s.step a = some s') : Inv s' := by
  cases a with
  | flush entries sync faults =>
    cases hs
    exact h.flush entries sync faults
  | truncateToLsn truncateLsn =>
    cases hs
    exact h.truncateToLsn truncateLsn

lemma inv_start (config : FlushConfig) (existing : List Segment) : Inv (start config existing) where
  open_id := by simp [start, new]
  closed_id := by
    intro seg hseg
    obtain ⟨seg₀, hseg₀, rfl⟩ := mem_map.mp hseg
    refine ⟨?_, by simp [start, new]⟩
    exact (le_foldl_max id (existing.map Segment.id) 0).2 _ (mem_map.mpr ⟨seg₀, hseg₀, rfl⟩)
  ack_id := by simp [start]
  tracked := by simp [start]
  covered := by simp [start]
  accounted := by
    intro seg hseg
    obtain ⟨seg₀, hseg₀, rfl⟩ := mem_map.mp hseg
    trivial

/-- **Every deleted segment is accounted for**: it is more than `segments_to_retain` ids behind the
current one, or a truncation was asked for beyond every entry acknowledged in it. The open segment
is never deleted. -/
theorem removals_accounted (config : FlushConfig) (existing : List Segment) (as : List Action)
    (s : RetentionLog) (hrun : Machine.run step (start config existing) as = some s) :
    (∀ seg ∈ s.coordinator.closed, s.Accounted seg) ∧
      ∀ w ∈ s.coordinator.writer, ∀ seg ∈ s.coordinator.closed, seg.id < w.id := by
  have htrue : Machine.Along step (fun _ _ => True) (start config existing) as :=
    along_of_forall fun _ _ => trivial
  have h := invariant_run (fun _ _ _ hinv _ => inv_step hinv) (inv_start config existing)
    htrue hrun
  refine ⟨h.accounted, fun w hw seg hseg => ?_⟩
  rw [h.open_id w hw]
  exact (h.closed_id seg hseg).2 (by rw [Option.mem_def.mp hw]; rfl)

/-- Three batches, each one larger than a segment, and one segment to retain. -/
def threeSegments : List Action :=
  [1, 2, 3].map fun lsn => .flush [⟨lsn, List.replicate 8 0⟩] true
    ⟨none, [], none, false, false, ⟨none, false, false⟩⟩

/-- The first segment is deleted at the third rotation; nothing was ever truncated. -/
theorem retention_ignores_truncation : ∃ s,
    Machine.run step (start ⟨8, 1, true, 64⟩ []) threeSegments = some s ∧
      ¬ s.KeepsUntruncated := by
  have h : ∃ s ∈ run step (start ⟨8, 1, true, 64⟩ []) threeSegments,
      s.truncations = [] ∧ ∃ seg ∈ s.coordinator.closed, seg.removal.isSome ∧
        ∃ a ∈ s.acknowledged, a.1 = seg.id := by
    decide +kernel
  obtain ⟨s, hs, hnone, seg, hseg, hremoved, a, ha, heq⟩ := h
  refine ⟨s, hs, fun hkeeps => ?_⟩
  obtain ⟨bound, hbound, _⟩ := hkeeps seg hseg hremoved a ha heq
  rw [hnone] at hbound
  exact absurd hbound not_mem_nil

theorem removals_accounted_threeSegments : ∃ s,
    Machine.run step (start ⟨8, 1, true, 64⟩ []) threeSegments = some s ∧
      s.coordinator.closed.map (fun seg => seg.removal.isSome) = [true, false, false] ∧
      ∀ seg ∈ s.coordinator.closed, s.Accounted seg := by
  have h : ∃ s ∈ run step (start ⟨8, 1, true, 64⟩ []) threeSegments,
      s.coordinator.closed.map (fun seg => seg.removal.isSome) = [true, false, false] := by
    decide +kernel
  obtain ⟨s, hs, hremoved⟩ := h
  exact ⟨s, hs, hremoved, (removals_accounted ⟨8, 1, true, 64⟩ [] threeSegments s hs).1⟩

end RetentionLog

end Aletheia.FlushCoordinator
