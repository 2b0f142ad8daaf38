import Mathlib.Algebra.Order.Ring.Nat
import Mathlib.Data.List.Basic

/-!
# The flush coordinator

One caller at a time writes a batch to the open segment through a `BufWriter`, fsyncs it and rotates
the segment when it is full. Every file operation of a call may fail; the faults of a call say which
ones do, and how many bytes a failed write has written. The segment files are opened for appending,
so a seek does not matter. WAL encryption is left out: the bytes of an entry are what is written.
-/

namespace Aletheia

structure PendingEntry where
  lsn : ℕ
  data : List UInt8

structure SegmentMetadata where
  minLsn : ℕ
  maxLsn : ℕ
  entryCount : ℕ

inductive Removal where
  | retention (retainFrom : ℕ)
  | truncation (truncateLsn : ℕ)

/-- A segment that is not open. A deleted one is kept here, with what it held. -/
structure Segment where
  id : ℕ
  file : List UInt8
  metadata : Option SegmentMetadata
  removal : Option Removal

/-- What an entry's `write_all` runs into: a failure to make room in the buffer, or a failure of the
write itself, after so many bytes. -/
structure WriteFault where
  flush : Option ℕ
  write : Option ℕ

/-- The open segment behind its `BufWriter`. -/
structure SegmentWriter where
  id : ℕ
  file : List UInt8
  buffer : List UInt8

namespace SegmentWriter

/-- What the file holds once the buffer is written. -/
def stream (w : SegmentWriter) : List UInt8 := w.file ++ w.buffer

/-- A failed write keeps the rest in the buffer. -/
def flushBuf (w : SegmentWriter) (fault : Option ℕ) : SegmentWriter × Bool :=
  match fault.filter (· < w.buffer.length) with
  | some written =>
    ({ w with file := w.file ++ w.buffer.take written, buffer := w.buffer.drop written }, false)
  | none => ({ w with file := w.stream, buffer := [] }, true)

/-- Data as large as the buffer is written to the file directly. -/
def writeThrough (w : SegmentWriter) (capacity : ℕ) (data : List UInt8) (fault : Option ℕ) :
    SegmentWriter × Bool :=
  if capacity ≤ data.length then
    match fault.filter (· < data.length) with
    | some written => ({ w with file := w.file ++ data.take written }, false)
    | none => ({ w with file := w.file ++ data }, true)
  else ({ w with buffer := w.buffer ++ data }, true)

/-- `BufWriter::write_all`: room is made first if the data does not fit. -/
def writeAll (w : SegmentWriter) (capacity : ℕ) (data : List UInt8) (fault : WriteFault) :
    SegmentWriter × Bool :=
  let spare := capacity - w.buffer.length
  if data.length < spare then ({ w with buffer := w.buffer ++ data }, true)
  else
    match if spare < data.length then w.flushBuf fault.flush else (w, true) with
    | (w, true) => w.writeThrough capacity data fault.write
    | (w, false) => (w, false)

def writeEntries (capacity : ℕ) : SegmentWriter → List PendingEntry → List WriteFault →
    SegmentWriter × Bool
  | w, [], _ => (w, true)
  | w, e :: es, faults =>
    match w.writeAll capacity e.data (faults.headD ⟨none, none⟩) with
    | (w, true) => writeEntries capacity w es faults.tail
    | (w, false) => (w, false)

variable (w : SegmentWriter)

@[simp] lemma flushBuf_none :
    w.flushBuf none = ({ w with file := w.stream, buffer := [] }, true) := rfl

lemma writeThrough_none {capacity : ℕ} {data : List UInt8}
    (h : capacity ≤ data.length → w.buffer = [] ∨ data = []) :
    (w.writeThrough capacity data none).2 = true ∧ (w.writeThrough capacity data none).1.id = w.id ∧
      (w.writeThrough capacity data none).1.stream = w.stream ++ data := by
  unfold writeThrough
  split_ifs with hcap
  · refine ⟨rfl, rfl, ?_⟩
    rcases h hcap with hnil | hnil <;> simp [stream, hnil]
  · exact ⟨rfl, rfl, by simp [stream]⟩

lemma writeAll_none (capacity : ℕ) (data : List UInt8) :
    (w.writeAll capacity data ⟨none, none⟩).2 = true ∧
      (w.writeAll capacity data ⟨none, none⟩).1.id = w.id ∧
      (w.writeAll capacity data ⟨none, none⟩).1.stream = w.stream ++ data := by
  unfold writeAll
  dsimp only
  split_ifs with hspare hroom
  · exact ⟨rfl, rfl, by simp [stream]⟩
  · -- the buffer is written first
    have hempty : capacity ≤ data.length →
        ({ w with file := w.stream, buffer := [] } : SegmentWriter).buffer = [] ∨ data = [] :=
      fun _ => .inl rfl
    simpa [stream] using writeThrough_none _ hempty
  · -- exactly enough room
    refine w.writeThrough_none fun hcap => ?_
    by_cases hdata : data = []
    · exact .inr hdata
    · have hlen : 0 < data.length := List.length_pos_iff.mpr hdata
      exact .inl (List.length_eq_zero_iff.mp (by omega))

lemma writeEntries_nil (capacity : ℕ) (entries : List PendingEntry) :
    (w.writeEntries capacity entries []).2 = true ∧
      (w.writeEntries capacity entries []).1.id = w.id ∧
      (w.writeEntries capacity entries []).1.stream =
        w.stream ++ entries.flatMap PendingEntry.data := by
  induction entries generalizing w with
  | nil => exact ⟨rfl, rfl, by simp [writeEntries]⟩
  | cons e es ih =>
    obtain ⟨hok, hid, hstream⟩ := w.writeAll_none capacity e.data
    unfold writeEntries
    have hpair : w.writeAll capacity e.data ⟨none, none⟩ =
        ((w.writeAll capacity e.data ⟨none, none⟩).1, true) := Prod.ext rfl hok
    rw [List.headD_nil, List.tail_nil, hpair]
    obtain ⟨hok', hid', hstream'⟩ := ih (w.writeAll capacity e.data ⟨none, none⟩).1
    refine ⟨hok', hid'.trans hid, ?_⟩
    rw [hstream', hstream]
    simp

lemma id_flushBuf (fault : Option ℕ) : (w.flushBuf fault).1.id = w.id := by
  unfold flushBuf
  split <;> rfl

lemma id_writeAll (capacity : ℕ) (data : List UInt8) (fault : WriteFault) :
    (w.writeAll capacity data fault).1.id = w.id := by
  have hthrough : ∀ w : SegmentWriter, (w.writeThrough capacity data fault.write).1.id = w.id := by
    intro w
    unfold writeThrough
    split_ifs
    · split <;> rfl
    · rfl
  unfold writeAll
  dsimp only
  split_ifs
  · rfl
  · have hflush := w.id_flushBuf fault.flush
    split
    next heq => rw [hthrough, ← hflush, heq]
    next heq => rw [← hflush, heq]
  · exact hthrough w

lemma id_writeEntries (capacity : ℕ) (entries : List PendingEntry) (faults : List WriteFault) :
    (w.writeEntries capacity entries faults).1.id = w.id := by
  induction entries generalizing w faults with
  | nil => rfl
  | cons e es ih =>
    have hid := w.id_writeAll capacity e.data (faults.headD ⟨none, none⟩)
    unfold writeEntries
    split
    next heq => rw [ih, ← hid, heq]
    next heq => rw [← hid, heq]

end SegmentWriter

/-- `GWAL`. -/
def walMagic : List UInt8 := [0x47, 0x57, 0x41, 0x4C]

/-- `WAL_VERSION_STRING_LABELS`, the version of the plaintext format. -/
def walVersion : UInt8 := 13

def walHeader : List UInt8 := walMagic ++ [walVersion]

inductive OpenFault where
  | open
  /-- the file exists, its handle cannot be cloned -/
  | clone
  /-- so many bytes of the header are in the file -/
  | header (written : ℕ)

structure SealFaults where
  flush : Option ℕ
  sync : Bool
  metadata : Bool

structure Faults where
  openSegment : Option OpenFault
  /-- entry by entry -/
  writes : List WriteFault
  flush : Option ℕ
  sync : Bool
  setLen : Bool
  sealing : SealFaults

inductive FlushError where
  | openSegment
  | cloneHandle
  | writeHeader
  | writeEntry
  | flushBuffer
  | sync
  | flushSegment
  | syncSegment
  | writeMetadata
deriving DecidableEq

structure FlushStats where
  entriesFlushed : ℕ
  bytesWritten : ℕ
  segmentRotated : Bool

structure FlushConfig where
  segmentSize : ℕ
  segmentsToRetain : ℕ
  syncOnFlush : Bool
  writeBufferSize : ℕ

structure FlushCoordinator where
  config : FlushConfig
  /-- the segments that are not open, in the order they were closed -/
  closed : List Segment
  writer : Option SegmentWriter
  currentSegmentId : ℕ
  currentSegmentSize : ℕ
  currentSegmentMinLsn : ℕ
  currentSegmentMaxLsn : ℕ
  currentSegmentEntryCount : ℕ
  truncatedUpToLsn : ℕ

namespace FlushCoordinator

/-- `u64::MAX`. -/
def maxLsn : ℕ := 2 ^ 64 - 1

/-- On a directory that holds these segments. -/
def new (config : FlushConfig) (existing : List Segment) : FlushCoordinator where
  config := config
  closed := existing.map fun s => { s with removal := none }
  writer := none
  currentSegmentId := (existing.map Segment.id).foldl max 0
  currentSegmentSize := 0
  currentSegmentMinLsn := maxLsn
  currentSegmentMaxLsn := 0
  currentSegmentEntryCount := 0
  truncatedUpToLsn := 0

/-- The id after the highest one allocated is taken even if a later step fails. -/
def ensureSegmentOpen (c : FlushCoordinator) (fault : Option OpenFault) :
    FlushCoordinator × Except FlushError SegmentWriter :=
  match c.writer with
  | some w => (c, .ok w)
  | none =>
    let id := c.currentSegmentId + 1
    let c := { c with currentSegmentId := id }
    match fault with
    | some .open => (c, .error .openSegment)
    | some .clone => ({ c with closed := c.closed ++ [⟨id, [], none, none⟩] }, .error .cloneHandle)
    | some (.header written) =>
      ({ c with closed := c.closed ++ [⟨id, walHeader.take written, none, none⟩] },
        .error .writeHeader)
    | none =>
      let capacity := c.config.writeBufferSize
      let w := ((SegmentWriter.mk id [] []).writeAll capacity walMagic ⟨none, none⟩).1
      let w := (w.writeAll capacity [walVersion] ⟨none, none⟩).1
      ({ c with writer := some w, currentSegmentSize := walHeader.length }, .ok w)

/-- The LSN range of the open segment. -/
def track (c : FlushCoordinator) (entries : List PendingEntry) : FlushCoordinator :=
  { c with
    currentSegmentMinLsn := entries.foldl (fun m e => min m e.lsn) c.currentSegmentMinLsn
    currentSegmentMaxLsn := entries.foldl (fun m e => max m e.lsn) c.currentSegmentMaxLsn
    currentSegmentEntryCount := c.currentSegmentEntryCount + entries.length }

/-- After a failed fsync: `set_len` back to the size before the batch, unless that fails too. -/
def rollback (c : FlushCoordinator) (startSize : ℕ) (setLenFails : Bool) : FlushCoordinator :=
  if setLenFails then c
  else { c with
    writer := c.writer.map fun w =>
      { w with file := w.file.take startSize ++ List.replicate (startSize - w.file.length) 0 }
    currentSegmentSize := startSize }

/-- Segments with an id below `retain_from` are deleted, whatever they hold. -/
def cleanupOldSegments (c : FlushCoordinator) : FlushCoordinator :=
  let retainFrom := c.currentSegmentId - c.config.segmentsToRetain
  { c with
    closed := c.closed.map fun s =>
      if s.removal.isNone ∧ s.id < retainFrom then { s with removal := some (.retention retainFrom) }
      else s }

def setMetadata (c : FlushCoordinator) (id : ℕ) (metadata : SegmentMetadata) : FlushCoordinator :=
  { c with
    closed := c.closed.map fun s => if s.id = id then { s with metadata := some metadata } else s }

/-- The writer is closed and the tracking reset before the sync and the metadata. -/
def close (c : FlushCoordinator) (w : SegmentWriter) : FlushCoordinator :=
  { c with
    closed := c.closed ++ [⟨w.id, w.file, none, none⟩]
    writer := none
    currentSegmentSize := 0
    currentSegmentMinLsn := maxLsn
    currentSegmentMaxLsn := 0
    currentSegmentEntryCount := 0 }

def sealCurrent (c : FlushCoordinator) (faults : SealFaults) :
    FlushCoordinator × Except FlushError Unit :=
  match c.writer with
  | none => (c.cleanupOldSegments, .ok ())
  | some w =>
    match w.flushBuf faults.flush with
    | (w, false) => ({ c with writer := some w }, .error .flushSegment)
    | (w, true) =>
      if c.config.syncOnFlush ∧ faults.sync then (c.close w, .error .syncSegment)
      else if c.currentSegmentMinLsn ≤ c.currentSegmentMaxLsn ∧ 0 < c.currentSegmentEntryCount then
        if faults.metadata then (c.close w, .error .writeMetadata)
        else
          (((c.close w).setMetadata w.id ⟨c.currentSegmentMinLsn, c.currentSegmentMaxLsn,
            c.currentSegmentEntryCount⟩).cleanupOldSegments, .ok ())
      else ((c.close w).cleanupOldSegments, .ok ())

def maybeRotateSegment (c : FlushCoordinator) (faults : SealFaults) :
    FlushCoordinator × Except FlushError Bool :=
  if c.config.segmentSize ≤ c.currentSegmentSize then
    match c.sealCurrent faults with
    | (c, .ok ()) => (c, .ok true)
    | (c, .error e) => (c, .error e)
  else (c, .ok false)

def batchBytes (entries : List PendingEntry) : List UInt8 := entries.flatMap PendingEntry.data

/-- The part of `flush` after the segment is open. -/
def writeBatch (c : FlushCoordinator) (w : SegmentWriter) (entries : List PendingEntry) (sync : Bool)
    (faults : Faults) : FlushCoordinator × Except FlushError FlushStats :=
  match w.writeEntries c.config.writeBufferSize entries faults.writes with
  | (w, false) => ({ c with writer := some w }, .error .writeEntry)
  | (w, true) =>
    match w.flushBuf faults.flush with
    | (w, false) => ({ c with writer := some w }, .error .flushBuffer)
    | (w, true) =>
      let startSize := c.currentSegmentSize
      let c := { c with writer := some w }.track entries
      if sync ∧ c.config.syncOnFlush ∧ faults.sync then
        (c.rollback startSize faults.setLen, .error .sync)
      else
        let bytes := (batchBytes entries).length
        let c := { c with currentSegmentSize := c.currentSegmentSize + bytes }
        match c.maybeRotateSegment faults.sealing with
        | (c, .ok rotated) => (c, .ok ⟨entries.length, bytes, rotated⟩)
        | (c, .error e) => (c, .error e)

def flush (c : FlushCoordinator) (entries : List PendingEntry) (sync : Bool) (faults : Faults) :
    FlushCoordinator × Except FlushError FlushStats :=
  if entries.isEmpty then (c, .ok ⟨0, 0, false⟩)
  else
    match c.ensureSegmentOpen faults.openSegment with
    | (c, .ok w) => c.writeBatch w entries sync faults
    | (c, .error e) => (c, .error e)

/-- Segments whose every tracked LSN is below the bound are deleted; the open one never, and none
without metadata. -/
def truncateToLsn (c : FlushCoordinator) (truncateLsn : ℕ) : FlushCoordinator :=
  let removable (s : Segment) : Bool :=
    s.removal.isNone && decide (s.id < c.currentSegmentId) &&
      s.metadata.any fun m => m.maxLsn < truncateLsn
  { c with
    closed := c.closed.map fun s =>
      if removable s then { s with removal := some (.truncation truncateLsn) } else s
    truncatedUpToLsn := (c.closed.filter removable).foldl
      (fun t s => max t ((s.metadata.map SegmentMetadata.maxLsn).getD 0)) c.truncatedUpToLsn }

/-- A segment file without its header. -/
def payload (file : List UInt8) : List UInt8 := file.drop walHeader.length

/-- The bytes of the segments, deleted ones included, in the order they were written. -/
def content (c : FlushCoordinator) : List UInt8 :=
  c.closed.flatMap (fun s => payload s.file) ++ (c.writer.map fun w => payload w.file).getD []

end FlushCoordinator

end Aletheia
