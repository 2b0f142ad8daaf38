import Aletheia.ByteCode
import Aletheia.Exec
import Aletheia.TwoPhaseCommit

/-!
# The file of the two-phase commit log

A log file is a header and entries, each behind its length and with a checksum at its end. A call
writes one entry through a buffered writer and then enters its decision in a map; opening the log
reads the entries up to the first that does not decode, cuts the file there and builds the map again.
The checksum is a parameter.

The disk decides how a write ends: it takes a number of bytes and then fails, or the sync after the
write fails. What a failed flush did not write stays in the writer's buffer.
-/

namespace Aletheia.CommitLog

open Aletheia.ByteCode Aletheia.Sharding

inductive CommitLogError where
  | ioError (message : String)
  | corruptedLog (message : String)
  | invalidEntry (message : String)
  | checksumMismatch (expected actual : UInt32)
deriving DecidableEq

/-! ### Timestamps -/

/-- A timestamp of the machine's widths: an `i64` and a `u32`. -/
structure LogTimestamp where
  timestamp : HybridTimestamp
  wallclock_ge : -9223372036854775808 ≤ timestamp.wallclock
  wallclock_le : timestamp.wallclock ≤ i64Max
  logical_lt : timestamp.logical < 4294967296
deriving DecidableEq

namespace LogTimestamp

def serialize (t : LogTimestamp) : List UInt8 :=
  le 8 (t.timestamp.wallclock % 18446744073709551616).toNat ++ le 4 t.timestamp.logical

/-- `i64::from_le_bytes` on the number the bytes stand for. -/
def signed (n : ℕ) : ℤ := if n < 9223372036854775808 then n else n - 18446744073709551616

/-- `HybridTimestamp::deserialize`, of which the caller has checked the length. -/
def deserialize (bytes : List UInt8) : Except String HybridTimestamp :=
  let wallclock := signed (ofLe (bytes.take 8))
  let logical := ofLe ((bytes.drop 8).take 4)
  if wallclock > maxValidTimestamp ∧ wallclock ≠ i64Max then
    .error (s!"Corrupted data: Deserialized wallclock {wallclock} exceeds " ++
      s!"MAX_VALID_TIMESTAMP ({maxValidTimestamp})")
  else if wallclock = i64Max ∧ logical ≠ 0 then
    .error ("Corrupted data: Deserialized timestamp has wallclock i64::MAX " ++
      s!"but non-zero logical counter: {logical}")
  else .ok ⟨wallclock, logical⟩

/-- What `deserialize` accepts. -/
def Accepted (t : LogTimestamp) : Prop :=
  t.timestamp.wallclock ≤ maxValidTimestamp ∨ t.timestamp = timestampMax

instance (t : LogTimestamp) : Decidable t.Accepted := inferInstanceAs (Decidable (_ ∨ _))

@[simp] lemma length_serialize (t : LogTimestamp) : t.serialize.length = 12 := by
  simp [serialize]

lemma signed_wallclock (t : LogTimestamp) :
    signed (t.timestamp.wallclock % 18446744073709551616).toNat = t.timestamp.wallclock := by
  have hge := t.wallclock_ge
  have hle := t.wallclock_le
  simp only [signed, i64Max] at hle ⊢
  split <;> omega

lemma deserialize_serialize {t : LogTimestamp} (h : t.Accepted) (rest : List UInt8) :
    deserialize (t.serialize ++ rest) = .ok t.timestamp := by
  have hwall : ofLe ((t.serialize ++ rest).take 8) =
      (t.timestamp.wallclock % 18446744073709551616).toNat := by
    rw [serialize, List.append_assoc, List.take_left' (length_le 8 _)]
    exact ofLe_le (by omega)
  have hlogical : ofLe (((t.serialize ++ rest).drop 8).take 4) = t.timestamp.logical := by
    rw [serialize, List.append_assoc, List.drop_left' (length_le 8 _),
      List.take_left' (length_le 4 _)]
    exact ofLe_le t.logical_lt
  simp only [deserialize, hwall, hlogical, signed_wallclock]
  rcases h with h | h
  · have hmax : maxValidTimestamp < i64Max := by decide
    rw [if_neg (by omega), if_neg (by omega)]
  · rw [if_neg (by simp [h, timestampMax]), if_neg (by simp [h, timestampMax])]

end LogTimestamp

/-! ### Entries -/

structure CommitLogEntry where
  lsn : UInt64
  entryType : EntryType
  txId : UInt64
  timestampUs : UInt64
  participants : List ShardId
  commitTimestamp : Option HybridTimestamp
deriving DecidableEq

/-- What a call hands to the log; the sequence number is the log's. -/
structure Call where
  entryType : EntryType
  txId : UInt64
  timestampUs : UInt64
  participants : List ShardId
  commitTimestamp : Option LogTimestamp
deriving DecidableEq

namespace Call

def commit (txId timestampUs : UInt64) (participants : List ShardId)
    (commitTimestamp : Option LogTimestamp) : Call :=
  ⟨.commit, txId, timestampUs, participants, commitTimestamp⟩

def abort (txId timestampUs : UInt64) (participants : List ShardId) : Call :=
  ⟨.abort, txId, timestampUs, participants, none⟩

def complete (txId timestampUs : UInt64) : Call := ⟨.complete, txId, timestampUs, [], none⟩

variable (c : Call) (lsn : UInt64)

def entry : CommitLogEntry where
  lsn
  entryType := c.entryType
  txId := c.txId
  timestampUs := c.timestampUs
  participants := c.participants
  commitTimestamp := c.commitTimestamp.map LogTimestamp.timestamp

def typeByte : EntryType → UInt8
  | .commit => 1
  | .abort => 2
  | .complete => 3

def shardBytes (shard : ShardId) : List UInt8 := le 2 shard.val

def timestampBytes : Option LogTimestamp → List UInt8
  | some t => 1 :: t.serialize
  | none => [0]

/-- The entry before its checksum. -/
def body : List UInt8 :=
  typeByte c.entryType :: (le 8 lsn.toNat ++ (le 8 c.txId.toNat ++ (le 8 c.timestampUs.toNat ++
    -- the count is cast to sixteen bits
    (le 2 c.participants.length ++ (c.participants.flatMap shardBytes ++
      timestampBytes c.commitTimestamp)))))

/-- `CommitLogEntry::serialize`. -/
def serialize (crc : List UInt8 → UInt32) : List UInt8 :=
  let data := c.body lsn ++ le 4 (crc (c.body lsn)).toNat
  le 4 data.length ++ data

end Call

/-! ### Decoding -/

/-- A field of fixed width, or the message that it is missing. -/
def field (width : ℕ) (missing : String) (bytes : List UInt8) :
    Except CommitLogError (ℕ × List UInt8) :=
  if bytes.length < width then .error (.invalidEntry missing)
  else .ok (ofLe (bytes.take width), bytes.drop width)

def entryTypeOf (byte : UInt8) : Except CommitLogError EntryType :=
  if byte = 1 then .ok .commit
  else if byte = 2 then .ok .abort
  else if byte = 3 then .ok .complete
  else .error (.invalidEntry s!"Unknown entry type: {byte.toNat}")

/-- `ShardId::new`. -/
def shardIdOf (n : ℕ) : Except CommitLogError ShardId :=
  if h : n < 65535 then .ok ⟨n, h⟩
  else .error (.invalidEntry s!"Invalid shard ID {n} exceeds maximum allowed value")

def participantsOf : ℕ → List UInt8 → Except CommitLogError (List ShardId × List UInt8)
  | 0, bytes => .ok ([], bytes)
  | count + 1, bytes => do
    let (n, bytes) ← field 2 "Incomplete participants" bytes
    let shard ← shardIdOf n
    let (shards, bytes) ← participantsOf count bytes
    return (shard :: shards, bytes)

def commitTimestampOf : List UInt8 → Except CommitLogError (Option HybridTimestamp)
  | [] => .ok none
  | present :: bytes =>
    if present = 1 then
      if bytes.length < 12 then .error (.invalidEntry "Truncated commit timestamp")
      else
        match LogTimestamp.deserialize bytes with
        | .ok t => .ok (some t)
        | .error message => .error (.invalidEntry message)
    else .ok none

/-- The fields of an entry, of the bytes before its checksum; the first byte is given apart, since it
is read before any length is checked. -/
def fieldsOf (type : UInt8) (bytes : List UInt8) : Except CommitLogError CommitLogEntry := do
  let entryType ← entryTypeOf type
  let (lsn, bytes) ← field 8 "Missing LSN" bytes
  let (txId, bytes) ← field 8 "Missing TxId" bytes
  let (timestampUs, bytes) ← field 8 "Missing timestamp" bytes
  let (count, bytes) ← field 2 "Missing participant count" bytes
  let (participants, bytes) ← participantsOf count bytes
  let commitTimestamp ← commitTimestampOf bytes
  return ⟨.ofNat lsn, entryType, .ofNat txId, .ofNat timestampUs, participants, commitTimestamp⟩

/-- The part of `CommitLogEntry::deserialize` behind the length. -/
def decode (crc : List UInt8 → UInt32) (entryData : List UInt8) :
    Except CommitLogError CommitLogEntry :=
  let checksumOffset := entryData.length - 4
  let body := entryData.take checksumOffset
  let stored := UInt32.ofNat (ofLe (entryData.drop checksumOffset))
  if entryData.length < 4 then .error (.invalidEntry "No checksum")
  else if stored ≠ crc body then .error (.checksumMismatch stored (crc body))
  else fieldsOf (entryData.headD 0) (body.drop 1)

/-- `CommitLogEntry::deserialize`. -/
def deserialize (crc : List UInt8 → UInt32) (data : List UInt8) :
    Except CommitLogError CommitLogEntry :=
  let len := ofLe (data.take 4)
  if data.length < 4 then .error (.invalidEntry "Entry too short")
  else if data.length < 4 + len then .error (.invalidEntry "Incomplete entry")
  else decode crc ((data.drop 4).take len)

/-! ### Reading the file -/

/-- One turn of the loop of `read_entries`: the entry at the offset and its length in the file, or
`none` where the loop breaks. -/
def readEntry (crc : List UInt8 → UInt32) (bytes : List UInt8) : Option (CommitLogEntry × ℕ) :=
  let len := ofLe (bytes.take 4)
  if bytes.length < 4 then none
  else if bytes.length < 4 + len then none
  else
    match deserialize crc bytes with
    | .ok entry => some (entry, 4 + len)
    | .error _ => none

/-- The entries and how many bytes they take; a turn takes a byte at least, so the number of bytes
bounds the turns. -/
def readLoop (crc : List UInt8 → UInt32) : ℕ → List UInt8 → List CommitLogEntry × ℕ
  | 0, _ => ([], 0)
  | turns + 1, bytes =>
    match readEntry crc bytes with
    | none => ([], 0)
    | some (entry, size) =>
      let (entries, valid) := readLoop crc turns (bytes.drop size)
      (entry :: entries, size + valid)

/-- `COMMIT_LOG_MAGIC`, `COMMIT_LOG_VERSION`, three reserved bytes and an entry count of zero. -/
def header : List UInt8 := [65, 68, 66, 50, 2, 0, 0, 0, 0, 0, 0, 0, 0, 0, 0, 0]

/-- The entries of the file and how much of it is valid. -/
def readEntries (crc : List UInt8 → UInt32) (file : List UInt8) :
    Except CommitLogError (List CommitLogEntry × ℕ) :=
  if file.length < 16 then .error (.corruptedLog "File too short")
  else if file.take 4 ≠ header.take 4 then .error (.corruptedLog "Invalid magic")
  else if (file.getD 4 0) > 2 then
    .error (.corruptedLog s!"Unsupported version: {(file.getD 4 0).toNat}")
  else
    let (entries, valid) := readLoop crc file.length (file.drop 16)
    .ok (entries, 16 + valid)

def maxLsn (entries : List CommitLogEntry) : UInt64 :=
  entries.foldl (fun m e => if e.lsn > m then e.lsn else m) 0

def maxTxId (entries : List CommitLogEntry) : UInt64 :=
  entries.foldl (fun m e => if e.txId > m then e.txId else m) 0

/-! ### The log -/

abbrev Pending := UInt64 → Option CommitLogEntry

structure Log where
  lsn : UInt64
  /-- what the writer holds and has not written -/
  buffer : List UInt8
  pending : Pending
  maxSeenTxId : UInt64

/-- How the map is built when the log is opened. -/
def scanEntry (found : Pending × List UInt64) (e : CommitLogEntry) : Pending × List UInt64 :=
  match e.entryType with
  | .commit | .abort =>
    if e.txId ∈ found.2 then found else (Function.update found.1 e.txId (some e), found.2)
  | .complete => (Function.update found.1 e.txId none, e.txId :: found.2)

/-- `PersistentCommitLog::new` on an existing file: the log and the file, cut behind what is valid. -/
def Log.new (crc : List UInt8 → UInt32) (file : List UInt8) :
    Except CommitLogError (Log × List UInt8) := do
  let (entries, valid) ← readEntries crc file
  let log : Log :=
    { lsn := maxLsn entries + 1
      buffer := []
      pending := (entries.foldl scanEntry (fun _ => none, [])).1
      maxSeenTxId := maxTxId entries }
  return (log, file.take valid)

/-- `PersistentCommitLog::new` without a file: the header is written and flushed. -/
def Log.create : Log × List UInt8 :=
  ({ lsn := 1, buffer := [], pending := fun _ => none, maxSeenTxId := 0 }, header)

/-! ### Writing -/

/-- What the disk does during a call: how many bytes it takes before a write fails, if one does, and
whether the sync fails. -/
structure Disk where
  takes : Option ℕ
  syncFails : Bool
  message : String

structure Writer where
  file : List UInt8
  buffer : List UInt8

namespace Writer

/-- `BufWriter`'s default. -/
def capacity : ℕ := 8192

/-- How many of the bytes the disk takes. -/
def taken (takes : Option ℕ) (bytes : List UInt8) : ℕ := (takes.getD bytes.length).min bytes.length

/-- `flush_buf`: on a failure the buffer keeps what was not written. -/
def flushBuf (w : Writer) (takes : Option ℕ) : Option (Option ℕ) × Writer :=
  let n := taken takes w.buffer
  (if n = w.buffer.length then some (takes.map (· - n)) else none,
    ⟨w.file ++ w.buffer.take n, w.buffer.drop n⟩)

/-- A write around the buffer. -/
def writeThrough (w : Writer) (data : List UInt8) (takes : Option ℕ) : Option (Option ℕ) × Writer :=
  let n := taken takes data
  (if n = data.length then some (takes.map (· - n)) else none,
    { w with file := w.file ++ data.take n })

/-- `BufWriter::write_all`: `none` when it fails, else what the disk still takes. -/
def writeAll (w : Writer) (data : List UInt8) (takes : Option ℕ) : Option (Option ℕ) × Writer :=
  let spare := capacity - w.buffer.length
  if data.length < spare then (some takes, { w with buffer := w.buffer ++ data })
  else
    match if data.length > spare then w.flushBuf takes else (some takes, w) with
    | (none, w) => (none, w)
    | (some takes, w) =>
      if data.length ≥ capacity then w.writeThrough data takes
      else (some takes, { w with buffer := w.buffer ++ data })

def writeEntry (w : Writer) (syncOnWrite : Bool) (data : List UInt8) (disk : Disk) :
    Except CommitLogError Unit × Writer :=
  match w.writeAll data disk.takes with
  | (none, w) => (.error (.ioError ("Write failed: " ++ disk.message)), w)
  | (some takes, w) =>
    if syncOnWrite then
      match w.flushBuf takes with
      | (none, w) => (.error (.ioError ("Flush failed: " ++ disk.message)), w)
      | (some _, w) =>
        if disk.syncFails then (.error (.ioError ("Sync failed: " ++ disk.message)), w)
        else (.ok (), w)
    else (.ok (), w)

end Writer

/-- The map after a call that returned `Ok`. -/
def enter (pending : Pending) (e : CommitLogEntry) : Pending :=
  match e.entryType with
  | .commit | .abort => Function.update pending e.txId (some e)
  | .complete => Function.update pending e.txId none

/-- `log_commit`, `log_abort` and `log_complete`: the sequence number is taken and the id counted
before the write, the map is changed after it. -/
def Log.write (log : Log) (crc : List UInt8 → UInt32) (syncOnWrite : Bool) (file : List UInt8)
    (c : Call) (disk : Disk) : Except CommitLogError UInt64 × Log × List UInt8 :=
  let (result, w) :=
    (Writer.mk file log.buffer).writeEntry syncOnWrite (c.serialize log.lsn crc) disk
  let log' : Log :=
    { log with
      lsn := log.lsn + 1
      buffer := w.buffer
      maxSeenTxId := if c.txId > log.maxSeenTxId then c.txId else log.maxSeenTxId }
  match result with
  | .ok () => (.ok log.lsn, { log' with pending := enter log.pending (c.entry log.lsn) }, w.file)
  | .error e => (.error e, log', w.file)

end Aletheia.CommitLog
