import Aletheia.FlushCoordinator
import Aletheia.Machine

/-!
# What the segments hold after a sequence of flushes

A flush that returns `Ok` has added its batch to the segments. One that fails is to have added
nothing, and it does so when the segment could not be opened or when the fsync failed and the file
was cut back. A failed write does not cut the file back: a part of the batch is in the file, the
rest in the buffer, and the size the next rollback goes by counts neither.
-/

namespace Aletheia.FlushCoordinator

open List

variable {faults : SealFaults}

structure FlushCall where
  entries : List PendingEntry
  sync : Bool
  faults : Faults

/-- A coordinator and the bytes of the batches whose flush returned `Ok`, in call order, after what
was in the directory at the start. -/
structure FlushLog where
  coordinator : FlushCoordinator
  acknowledged : List UInt8

namespace FlushLog

def start (config : FlushConfig) (existing : List Segment) : FlushLog where
  coordinator := new config existing
  acknowledged := (new config existing).content

def step (s : FlushLog) (call : FlushCall) : Option FlushLog :=
  let result := s.coordinator.flush call.entries call.sync call.faults
  some ⟨result.1,
    if result.2.isOk then s.acknowledged ++ batchBytes call.entries else s.acknowledged⟩

/-- The segments hold exactly the acknowledged batches. -/
def Atomic (s : FlushLog) : Prop := s.coordinator.content = s.acknowledged

/-- No write of an entry or of the buffer fails, no `set_len`, and no step of a rotation. -/
def CutBack (_ : FlushLog) (call : FlushCall) : Prop :=
  call.faults.writes.isEmpty ∧ call.faults.flush = none ∧ call.faults.setLen = false ∧
    call.faults.sealing.flush = none ∧ call.faults.sealing.sync = false ∧
    call.faults.sealing.metadata = false

instance (s : FlushLog) (call : FlushCall) : Decidable (s.CutBack call) := by
  unfold CutBack
  infer_instance

end FlushLog

variable {c c' : FlushCoordinator} {w : SegmentWriter}

lemma payload_append {file : List UInt8} (h : walHeader.length ≤ file.length) (data : List UInt8) :
    payload (file ++ data) = payload file ++ data := by
  unfold payload
  rw [drop_append_of_le_length h]

/-- The writer is as a call finds it: nothing is buffered and the tracked size is the file's. -/
def Settled (c : FlushCoordinator) : Prop :=
  ∀ w ∈ c.writer, w.buffer = [] ∧ w.file.length = c.currentSegmentSize ∧
    walHeader.length ≤ w.file.length

/-- The writer inside a call, with `base` in the segments once the buffer is written. -/
structure Opened (c : FlushCoordinator) (w : SegmentWriter) (base : List UInt8) : Prop where
  size : w.stream.length = c.currentSegmentSize
  header : walHeader.length ≤ w.stream.length
  base : c.closed.flatMap (fun s => payload s.file) ++ payload w.stream = base

/-- A segment is open afterwards, or nothing has changed but for a file without entries. -/
lemma ensureSegmentOpen_spec (h : c.Settled) (fault : Option OpenFault) :
    match c.ensureSegmentOpen fault with
    | (c', .ok w) => c'.Opened w c.content
    | (c', .error _) => c'.Settled ∧ c'.content = c.content := by
  unfold ensureSegmentOpen
  cases hw : c.writer with
  | some w =>
    obtain ⟨hbuf, hsize, hheader⟩ := h w hw
    have hstream : w.stream = w.file := by simp [SegmentWriter.stream, hbuf]
    refine ⟨by rw [hstream, hsize], by rw [hstream]; exact hheader, ?_⟩
    rw [hstream]
    simp [content, hw]
  | none =>
    rcases fault with _ | (_ | _ | written)
    · obtain ⟨_, _, hmagic⟩ := (SegmentWriter.mk (c.currentSegmentId + 1) [] []).writeAll_none
        c.config.writeBufferSize walMagic
      obtain ⟨_, _, hversion⟩ := ((SegmentWriter.mk (c.currentSegmentId + 1) [] []).writeAll
        c.config.writeBufferSize walMagic ⟨none, none⟩).1.writeAll_none
        c.config.writeBufferSize [walVersion]
      rw [hmagic] at hversion
      have hstream := hversion.trans (show _ = walHeader by simp [SegmentWriter.stream, walHeader])
      refine ⟨?_, ?_, ?_⟩ <;> dsimp only <;> rw [hstream]
      simp [content, hw, payload]
    · exact ⟨by simp [Settled], by simp [content, hw]⟩
    · exact ⟨by simp [Settled], by simp [content, hw, payload]⟩
    · refine ⟨by simp [Settled], ?_⟩
      have hlen : (walHeader.take written).length ≤ walHeader.length := length_take_le' _ _
      simp [content, hw, payload, drop_eq_nil_of_le hlen]

@[simp] lemma content_setMetadata (c : FlushCoordinator) (id : ℕ) (m : SegmentMetadata) :
    (c.setMetadata id m).content = c.content := by
  have hfile : ∀ s : Segment,
      payload (if s.id = id then { s with metadata := some m } else s).file = payload s.file := by
    intro s
    split_ifs <;> rfl
  simp only [content, setMetadata, flatMap_map, hfile]

@[simp] lemma content_cleanupOldSegments (c : FlushCoordinator) :
    c.cleanupOldSegments.content = c.content := by
  have hfile : ∀ (s : Segment) (retainFrom : ℕ),
      payload (if s.removal.isNone ∧ s.id < retainFrom then
        { s with removal := some (.retention retainFrom) } else s).file = payload s.file := by
    intro s retainFrom
    split_ifs <;> rfl
  simp only [content, cleanupOldSegments, flatMap_map, hfile]

lemma content_close (hw : c.writer = some w) : (c.close w).content = c.content := by
  simp [content, close, hw]

lemma sealCurrent_spec (h : c.Settled) (hflush : faults.flush = none) (hsync : faults.sync = false)
    (hmetadata : faults.metadata = false) :
    (c.sealCurrent faults).2 = .ok () ∧ (c.sealCurrent faults).1.Settled ∧
      (c.sealCurrent faults).1.content = c.content := by
  unfold sealCurrent
  cases hw : c.writer with
  | none => exact ⟨rfl, by simp [Settled, cleanupOldSegments, hw], by simp⟩
  | some w =>
    have hstream : ({ w with file := w.stream, buffer := [] } : SegmentWriter) = w := by
      obtain ⟨hbuf, _⟩ := h w hw
      cases w
      simp_all [SegmentWriter.stream]
    simp only [hflush, SegmentWriter.flushBuf_none, hstream, hsync, hmetadata, Bool.false_eq_true,
      and_false, if_false]
    split_ifs
    · exact ⟨rfl, by simp [Settled, cleanupOldSegments, setMetadata, close],
        by simp [content_close hw]⟩
    · exact ⟨rfl, by simp [Settled, cleanupOldSegments, close], by simp [content_close hw]⟩

lemma maybeRotateSegment_spec (h : c.Settled) (hflush : faults.flush = none)
    (hsync : faults.sync = false) (hmetadata : faults.metadata = false) :
    ∃ rotated, (c.maybeRotateSegment faults).2 = .ok rotated ∧
      (c.maybeRotateSegment faults).1.Settled ∧
      (c.maybeRotateSegment faults).1.content = c.content := by
  unfold maybeRotateSegment
  split_ifs
  · obtain ⟨hok, hsettled, hcontent⟩ := sealCurrent_spec h hflush hsync hmetadata
    rw [show c.sealCurrent faults = ((c.sealCurrent faults).1, .ok ()) from Prod.ext rfl hok]
    exact ⟨true, rfl, hsettled, hcontent⟩
  · exact ⟨false, rfl, h, rfl⟩

/-- What a call leaves, over segments that held `base`. -/
def Leaves (base batch : List UInt8) (result : FlushCoordinator × Except FlushError FlushStats) :
    Prop :=
  result.1.Settled ∧ result.1.content = if result.2.isOk then base ++ batch else base

lemma writeBatch_spec {base : List UInt8} (h : c.Opened w base) (entries : List PendingEntry)
    (sync : Bool) {faults : Faults} (hwrites : faults.writes = []) (hflush : faults.flush = none)
    (hsetLen : faults.setLen = false) (hsealFlush : faults.sealing.flush = none)
    (hsealSync : faults.sealing.sync = false) (hmetadata : faults.sealing.metadata = false) :
    Leaves base (batchBytes entries) (c.writeBatch w entries sync faults) := by
  obtain ⟨hok, hid, hstream⟩ := w.writeEntries_nil c.config.writeBufferSize entries
  have hpair : w.writeEntries c.config.writeBufferSize entries [] =
      ((w.writeEntries c.config.writeBufferSize entries []).1, true) := Prod.ext rfl hok
  unfold writeBatch
  rw [hwrites, hpair]
  simp only [hflush, SegmentWriter.flushBuf_none, hstream, hid]
  by_cases hfails : sync ∧ c.config.syncOnFlush ∧ faults.sync
  · -- the fsync fails and the file is cut back
    have hcut : (w.stream ++ entries.flatMap PendingEntry.data).take c.currentSegmentSize ++
        List.replicate (c.currentSegmentSize -
          (w.stream ++ entries.flatMap PendingEntry.data).length) 0 = w.stream := by
      rw [← h.size, take_left, length_append, Nat.sub_add_eq, Nat.sub_self, Nat.zero_sub,
        replicate_zero, append_nil]
    simp only [track, hfails, and_self, if_true, rollback, hsetLen, Bool.false_eq_true, if_false,
      Option.map_some, hcut]
    refine ⟨?_, h.base⟩
    rintro w' hw'
    cases hw'
    exact ⟨rfl, h.size, h.header⟩
  · simp only [track, hfails, if_false]
    set c' : FlushCoordinator := { c with
      writer := some ⟨w.id, w.stream ++ entries.flatMap PendingEntry.data, []⟩
      currentSegmentSize := c.currentSegmentSize + (batchBytes entries).length
      currentSegmentMinLsn := entries.foldl (fun m e => min m e.lsn) c.currentSegmentMinLsn
      currentSegmentMaxLsn := entries.foldl (fun m e => max m e.lsn) c.currentSegmentMaxLsn
      currentSegmentEntryCount := c.currentSegmentEntryCount + entries.length } with hc'
    have hsettled : c'.Settled := by
      rintro w' hw'
      cases hw'
      refine ⟨rfl, ?_, ?_⟩
      · rw [length_append, h.size]
        rfl
      · rw [length_append]
        exact h.header.trans (Nat.le_add_right _ _)
    have hcontent : c'.content = base ++ batchBytes entries := by
      rw [← h.base, append_assoc, batchBytes, ← payload_append h.header]
      rfl
    obtain ⟨rotated, hok, hrotated, hsame⟩ :=
      maybeRotateSegment_spec hsettled hsealFlush hsealSync hmetadata
    rw [show c'.maybeRotateSegment faults.sealing =
      ((c'.maybeRotateSegment faults.sealing).1, .ok rotated) from Prod.ext rfl hok]
    exact ⟨hrotated, hsame.trans hcontent⟩

namespace FlushLog

variable {s s' : FlushLog} {call : FlushCall}

lemma settled_step (h : s.coordinator.Settled ∧ s.Atomic) (hcut : s.CutBack call)
    (hs : s.step call = some s') : s'.coordinator.Settled ∧ s'.Atomic := by
  obtain ⟨hsettled, hatomic⟩ := h
  obtain ⟨hwrites, hflush, hsetLen, hsealFlush, hsealSync, hmetadata⟩ := hcut
  have hleaves : Leaves s.acknowledged (batchBytes call.entries)
      (s.coordinator.flush call.entries call.sync call.faults) := by
    unfold flush
    split_ifs with hempty
    · refine ⟨hsettled, ?_⟩
      have hnil : batchBytes call.entries = [] := by
        rw [isEmpty_iff.mp hempty]
        rfl
      rw [hnil, append_nil, ite_self]
      exact hatomic
    · have hopen := ensureSegmentOpen_spec hsettled call.faults.openSegment
      rw [hatomic] at hopen
      generalize s.coordinator.ensureSegmentOpen call.faults.openSegment = outcome at hopen ⊢
      obtain ⟨c, opened⟩ := outcome
      cases opened with
      | ok w =>
        exact writeBatch_spec hopen call.entries call.sync (isEmpty_iff.mp hwrites) hflush
          hsetLen hsealFlush hsealSync hmetadata
      | error e => exact hopen
  cases hs
  exact hleaves

/-- **A flush adds its whole batch or nothing.** -/
theorem flush_atomic (config : FlushConfig) (existing : List Segment) (calls : List FlushCall)
    (hcut : Machine.Along step CutBack (start config existing) calls)
    (hrun : Machine.run step (start config existing) calls = some s) : s.Atomic := by
  have hstart : (start config existing).coordinator.Settled ∧ (start config existing).Atomic :=
    ⟨by simp [start, new, Settled], rfl⟩
  have h := Machine.invariant_run (fun _ _ _ => settled_step) hstart hcut hrun
  exact h.2

def noFaults : Faults := ⟨none, [], none, false, false, ⟨none, false, false⟩⟩

def smallSegments : FlushConfig := ⟨16, 10, true, 64⟩

/-- The write of the first batch fails two bytes in. The second one returns `Ok` behind the whole
first one; the fsync of the third fails, and the file is cut to a size that counts the second batch
only, which cuts that one off. -/
def partialWrite : List FlushCall :=
  [⟨[⟨1, [1, 2, 3]⟩], true, { noFaults with flush := some 7 }⟩, ⟨[⟨2, [4, 5]⟩], true, noFaults⟩,
    ⟨[⟨3, [6]⟩], true, { noFaults with sync := true }⟩]

def failedSetLen : List FlushCall :=
  [⟨[⟨1, [1, 2, 3]⟩], true, { noFaults with sync := true, setLen := true }⟩]

/-- The batch is durable, and the flush fails on the metadata of the segment it has filled. -/
def failedRotation : List FlushCall :=
  [⟨[⟨1, List.replicate 16 1⟩], true, { noFaults with sealing := ⟨none, false, true⟩ }⟩]

/-- The calls end with bytes in the log that are not those of the acknowledged batches. -/
def EndsTorn (calls : List FlushCall) : Prop :=
  ∃ s, Machine.run step (start smallSegments []) calls = some s ∧ ¬ s.Atomic

theorem flush_not_atomic :
    EndsTorn (partialWrite.take 2) ∧ EndsTorn partialWrite ∧ EndsTorn failedSetLen ∧
      EndsTorn failedRotation := by
  have h : ∀ calls ∈ [partialWrite.take 2, partialWrite, failedSetLen, failedRotation],
      ∃ s ∈ Machine.run step (start smallSegments []) calls,
        s.coordinator.content ≠ s.acknowledged := by
    decide +kernel
  exact ⟨h _ (by simp), h _ (by simp), h _ (by simp), h _ (by simp)⟩

/-- A segment that cannot be opened, an fsync that fails, and a batch that fills the segment. -/
def cutBackCalls : List FlushCall :=
  [⟨[⟨1, [1, 2, 3]⟩], true, { noFaults with openSegment := some (.header 3) }⟩,
    ⟨[⟨2, [4, 5]⟩], true, { noFaults with sync := true }⟩,
    ⟨[⟨3, List.replicate 16 1⟩], true, noFaults⟩]

theorem flush_atomic_cutBack : ∃ s,
    Machine.run step (start smallSegments []) cutBackCalls = some s ∧
      s.acknowledged = List.replicate 16 1 ∧ s.Atomic := by
  have h : ∃ s ∈ Machine.run step (start smallSegments []) cutBackCalls,
      s.acknowledged = List.replicate 16 1 := by
    decide +kernel
  obtain ⟨s, hs, hack⟩ := h
  refine ⟨s, hs, hack, flush_atomic smallSegments [] cutBackCalls ?_ hs⟩
  decide +kernel

end FlushLog

end Aletheia.FlushCoordinator
