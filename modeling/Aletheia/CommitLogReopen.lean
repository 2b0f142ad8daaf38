import Mathlib.Data.List.Induction
import Aletheia.CommitLogFile

/-!
# Opening the commit log again

What a call writes, the reader reads back, and it stops at a piece that holds no whole entry. So the
log opens again to the decisions of the calls that returned `Ok`, as long as nothing that a failed
call left behind stands before or reads like one of their entries.
-/

namespace Aletheia.CommitLog

open Aletheia.ByteCode Aletheia.Sharding Aletheia.Machine List Call

variable {crc : List UInt8 → UInt32} {calls : List Numbered} {tail : List UInt8}
  {entries : List CommitLogEntry} {cut : ℕ}

/-! ### What is written is read back -/

lemma field_le {width n : ℕ} {missing : String} {rest : List UInt8} (h : n < 256 ^ width) :
    field width missing (le width n ++ rest) = .ok (n, rest) := by
  have hlength : ¬ (le width n ++ rest).length < width := by simp
  rw [field, if_neg hlength, take_left' (length_le width n),
    drop_left' (length_le width n), ofLe_le h]

lemma shardIdOf_val (shard : ShardId) : shardIdOf shard.val = .ok shard := by
  rw [shardIdOf, dif_pos shard.isLt]

lemma participantsOf_flatMap (shards : List ShardId) (rest : List UInt8) :
    participantsOf shards.length (shards.flatMap shardBytes ++ rest) = .ok (shards, rest) := by
  induction shards with
  | nil => rfl
  | cons shard shards ih =>
    have hbound : shard.val < 256 ^ 2 := by omega
    rw [flatMap_cons, append_assoc, length_cons, participantsOf, shardBytes, field_le hbound]
    simp only [bind, Except.bind, shardIdOf_val, ih]
    rfl

/-- The log can read back what the call asks it to write. -/
structure Call.Readable (c : Call) : Prop where
  participants : c.participants.length < 65536
  timestamp : ∀ t ∈ c.commitTimestamp, t.Accepted

instance (c : Call) : Decidable c.Readable :=
  decidable_of_iff (c.participants.length < 65536 ∧ ∀ t ∈ c.commitTimestamp, t.Accepted)
    ⟨fun h => ⟨h.1, h.2⟩, fun h => ⟨h.participants, h.timestamp⟩⟩

lemma commitTimestampOf_timestampBytes {t : Option LogTimestamp} (h : ∀ u ∈ t, u.Accepted) :
    commitTimestampOf (timestampBytes t) = .ok (t.map LogTimestamp.timestamp) := by
  cases t with
  | none => rfl
  | some u =>
    have hread := LogTimestamp.deserialize_serialize (h u rfl) []
    rw [append_nil] at hread
    simp [commitTimestampOf, timestampBytes, hread]

lemma entryTypeOf_typeByte (t : EntryType) : entryTypeOf (typeByte t) = .ok t := by
  cases t <;> rfl

variable {c : Call} {lsn : UInt64}

lemma fieldsOf_body (h : c.Readable) :
    fieldsOf (typeByte c.entryType) ((c.body lsn).drop 1) = .ok (c.entry lsn) := by
  have hlsn := lsn.toNat_lt
  have htx := c.txId.toNat_lt
  have htime := c.timestampUs.toNat_lt
  simp only [fieldsOf, body, drop_succ_cons, drop_zero, entryTypeOf_typeByte, bind, Except.bind]
  rw [field_le (by omega)]
  dsimp only
  rw [field_le (by omega)]
  dsimp only
  rw [field_le (by omega)]
  dsimp only
  rw [field_le h.participants]
  dsimp only
  rw [participantsOf_flatMap]
  dsimp only
  rw [commitTimestampOf_timestampBytes h.timestamp]
  simp [pure, Except.pure, entry]

variable (lsn) in
lemma length_body_le (h : c.Readable) : (c.body lsn).length + 4 < 256 ^ 4 := by
  have hshards : ∀ shards : List ShardId,
      (shards.flatMap shardBytes).length = 2 * shards.length := by
    intro shards
    induction shards with
    | nil => rfl
    | cons shard shards ih => simp [shardBytes, ih]; omega
  have htime : ∀ t, (timestampBytes t).length ≤ 13 := by
    rintro (_ | t) <;> simp [timestampBytes]
  have hcount := h.participants
  have hlast := htime c.commitTimestamp
  simp only [body, length_cons, length_append, length_le, hshards]
  omega

variable (crc c lsn) in
lemma length_serialize : (c.serialize lsn crc).length = 4 + ((c.body lsn).length + 4) := by
  simp [serialize]

variable (h : c.Readable)

include h

lemma decode_body :
    decode crc (c.body lsn ++ le 4 (crc (c.body lsn)).toNat) = .ok (c.entry lsn) := by
  have hoffset : (c.body lsn ++ le 4 (crc (c.body lsn)).toNat).length - 4 = (c.body lsn).length := by
    simp
  have hsum : UInt32.ofNat (ofLe (le 4 (crc (c.body lsn)).toNat)) = crc (c.body lsn) := by
    rw [ofLe_le (crc (c.body lsn)).toNat_lt]
    simp
  have hhead : (c.body lsn ++ le 4 (crc (c.body lsn)).toNat).headD 0 = typeByte c.entryType :=
    rfl
  simp only [decode, hoffset, take_left, drop_left, hsum, hhead]
  rw [if_neg (by simp), if_neg (by simp), fieldsOf_body h]

variable (crc lsn) in
lemma ofLe_take_serialize (rest : List UInt8) :
    ofLe ((c.serialize lsn crc ++ rest).take 4) = (c.body lsn).length + 4 := by
  rw [serialize, append_assoc, take_left' (length_le 4 _)]
  simpa using ofLe_le (length_body_le lsn h)

lemma readEntry_serialize (rest : List UInt8) : readEntry crc (c.serialize lsn crc ++ rest) =
      some (c.entry lsn, (c.serialize lsn crc).length) := by
  have hlen := ofLe_take_serialize crc lsn h rest
  have hlength : (c.serialize lsn crc ++ rest).length =
      4 + ((c.body lsn).length + 4) + rest.length := by
    rw [length_append, length_serialize]
  have hdata : ((c.serialize lsn crc ++ rest).drop 4).take ((c.body lsn).length + 4) =
      c.body lsn ++ le 4 (crc (c.body lsn)).toNat := by
    rw [serialize, append_assoc, drop_left' (length_le 4 _), take_left' (by simp)]
  simp only [readEntry, deserialize, hlen, hlength, hdata, decode_body h]
  rw [if_neg (by omega), if_neg (by omega), if_neg (by omega), if_neg (by omega), length_serialize]

lemma readEntry_prefix {piece : List UInt8} (hpiece : piece <+: c.serialize lsn crc)
    (hproper : piece ≠ c.serialize lsn crc) : readEntry crc piece = none := by
  obtain ⟨rest, hrest⟩ := hpiece
  have hlength : piece.length < (c.serialize lsn crc).length := by
    have hne : rest ≠ [] := by
      rintro rfl
      exact hproper (by simpa using hrest)
    have := length_pos_iff.mpr hne
    rw [← hrest, length_append]
    omega
  rw [readEntry]
  by_cases hshort : piece.length < 4
  · rw [if_pos hshort]
  · rw [if_neg hshort, if_pos]
    have htake : ofLe (piece.take 4) = (c.body lsn).length + 4 := by
      rw [← ofLe_take_serialize crc lsn h [], append_nil, ← hrest,
        take_append_of_le_length (by omega)]
    rw [htake, ← length_serialize crc]
    exact hlength

omit h

/-! ### The file of the calls that returned -/

abbrev Numbered := Call × UInt64

def entriesOf (calls : List Numbered) : List CommitLogEntry := calls.map fun n => n.1.entry n.2

variable (crc) in
def bytesOf (calls : List Numbered) : List UInt8 := calls.flatMap fun n => n.1.serialize n.2 crc

variable (crc) in
def fileOf (calls : List Numbered) : List UInt8 := header ++ bytesOf crc calls

lemma fileOf_snoc (calls : List Numbered) (n : Numbered) :
    fileOf crc (calls ++ [n]) = fileOf crc calls ++ n.1.serialize n.2 crc := by
  simp [fileOf, bytesOf]

lemma readLoop_bytesOf {turns : ℕ} (hcalls : ∀ n ∈ calls, n.1.Readable)
    (htail : readEntry crc tail = none) (hturns : calls.length ≤ turns) :
    readLoop crc turns (bytesOf crc calls ++ tail) =
      (entriesOf calls, (bytesOf crc calls).length) := by
  induction calls generalizing turns with
  | nil =>
    cases turns with
    | zero => rfl
    | succ turns => simp [readLoop, bytesOf, htail, entriesOf]
  | cons n calls ih =>
    obtain ⟨turns, rfl⟩ : ∃ k, turns = k + 1 := ⟨turns - 1, by simp at hturns; omega⟩
    have hn := hcalls n (by simp)
    have hle : calls.length ≤ turns := by simpa using hturns
    have hrest := ih (fun m hm => hcalls m (mem_cons_of_mem _ hm)) hle
    have hsplit : bytesOf crc (n :: calls) ++ tail =
        n.1.serialize n.2 crc ++ (bytesOf crc calls ++ tail) := by
      simp [bytesOf]
    rw [hsplit, readLoop, readEntry_serialize hn]
    simp only [drop_left, hrest]
    simp [entriesOf, bytesOf]

variable (crc) in
lemma length_le_length_bytesOf (calls : List Numbered) :
    calls.length ≤ (bytesOf crc calls).length := by
  induction calls with
  | nil => simp
  | cons n calls ih =>
    have hsize := length_serialize crc n.1 n.2
    simp only [bytesOf, flatMap_cons, length_append, length_cons] at ih ⊢
    omega

lemma readEntries_fileOf (hcalls : ∀ n ∈ calls, n.1.Readable) (htail : readEntry crc tail = none) :
    readEntries crc (fileOf crc calls ++ tail) =
      .ok (entriesOf calls, (fileOf crc calls).length) := by
  have hheader : header.length = 16 := rfl
  have hfile : fileOf crc calls ++ tail = header ++ (bytesOf crc calls ++ tail) := by
    simp [fileOf]
  have hlength : (fileOf crc calls).length = 16 + (bytesOf crc calls).length := by
    simp [fileOf, hheader]
  have hloop := readLoop_bytesOf hcalls htail
    (show calls.length ≤ (header ++ (bytesOf crc calls ++ tail)).length by
      have := length_le_length_bytesOf crc calls
      simp only [length_append]
      omega)
  have hmagic : (header ++ (bytesOf crc calls ++ tail)).take 4 = header.take 4 :=
    take_append_of_le_length (by decide)
  have hversion : (header ++ (bytesOf crc calls ++ tail)).getD 4 0 = 2 := rfl
  rw [hfile, readEntries, if_neg (by simp [hheader]), if_neg (by simp [hmagic]), hversion,
    if_neg (by decide), drop_left' hheader, hloop, hlength]

/-! ### The decisions of the calls that returned -/

/-- The map that the calls made as they returned. -/
def pendingOf (entries : List CommitLogEntry) : Pending := entries.foldl enter fun _ => none

/-- The ids with a completion. -/
def Completed (entries : List CommitLogEntry) (txId : UInt64) : Prop :=
  ∃ e ∈ entries, e.entryType = .complete ∧ e.txId = txId

instance (entries : List CommitLogEntry) (txId : UInt64) : Decidable (Completed entries txId) :=
  inferInstanceAs (Decidable (∃ e ∈ entries, _))

/-- The map and the completed ids that opening the log finds. -/
def scanOf (entries : List CommitLogEntry) : Pending × List UInt64 :=
  entries.foldl scanEntry (fun _ => none, [])

lemma scanOf_snoc (entries : List CommitLogEntry) (e : CommitLogEntry) :
    scanOf (entries ++ [e]) = scanEntry (scanOf entries) e := by
  simp [scanOf]

lemma pendingOf_snoc (entries : List CommitLogEntry) (e : CommitLogEntry) :
    pendingOf (entries ++ [e]) = enter (pendingOf entries) e := by
  simp [pendingOf]

lemma mem_scanOf {txId : UInt64} : txId ∈ (scanOf entries).2 ↔ Completed entries txId := by
  induction entries using List.reverseRecOn with
  | nil => simp [scanOf, Completed]
  | append_singleton entries e ih =>
    have hsnoc : Completed (entries ++ [e]) txId ↔
        Completed entries txId ∨ (e.entryType = .complete ∧ e.txId = txId) := by
      simp [Completed, or_and_right, exists_or]
    rw [hsnoc, ← ih, scanOf_snoc, scanEntry]
    cases e.entryType with
    | complete =>
      simp only [mem_cons, true_and]
      rw [or_comm, eq_comm]
    | commit | abort =>
      dsimp only
      split <;> simp

/-- The two maps agree as long as no decision follows the completion of its transaction. -/
lemma scanOf_snoc_eq {e : CommitLogEntry} (h : (scanOf entries).1 = pendingOf entries)
    (he : e.entryType ≠ .complete → ¬ Completed entries e.txId) :
    (scanOf (entries ++ [e])).1 = pendingOf (entries ++ [e]) := by
  rw [scanOf_snoc, pendingOf_snoc, ← h, scanEntry, enter]
  cases hkind : e.entryType with
  | complete => rfl
  | commit | abort =>
    have hnot : e.txId ∉ (scanOf entries).2 := by
      rw [mem_scanOf]
      exact he (by simp [hkind])
    simp only [hnot, if_false]

def logOf (calls : List Numbered) : Log where
  lsn := maxLsn (entriesOf calls) + 1
  buffer := []
  pending := (scanOf (entriesOf calls)).1
  maxSeenTxId := maxTxId (entriesOf calls)

lemma new_fileOf (hcalls : ∀ n ∈ calls, n.1.Readable) (htail : readEntry crc tail = none) :
    Log.new crc (fileOf crc calls ++ tail) = .ok (logOf calls, fileOf crc calls) := by
  simp only [Log.new, readEntries_fileOf hcalls htail, bind, Except.bind, pure, Except.pure,
    take_left]
  rfl

/-! ### What a write leaves -/

namespace Writer

/-- What is in the file or will follow it. -/
def stream (w : Writer) : List UInt8 := w.file ++ w.buffer

variable {w : Writer} {data : List UInt8} {takes : Option ℕ}

lemma flushBuf_spec {result : Option (Option ℕ)} {w₁ : Writer}
    (h : w.flushBuf takes = (result, w₁)) :
    w₁.stream = w.stream ∧ (result.isSome → w₁.buffer = []) := by
  cases h
  refine ⟨by simp [stream], fun hsome => ?_⟩
  split at hsome
  · next hall => simp [hall]
  · cases hsome

/-- After the outcome `r` the stream has grown by a piece of the data, and by all of it when the
write succeeded. -/
def Grows (w : Writer) (data : List UInt8) (r : Option (Option ℕ) × Writer) : Prop :=
  ∃ piece, piece <+: data ∧ r.2.stream = w.stream ++ piece ∧ (r.1.isSome → piece = data)

lemma grows_writeThrough (h : w.buffer = []) : w.Grows data (w.writeThrough data takes) := by
  refine ⟨data.take (taken takes data), take_prefix _ _, by simp [writeThrough, stream, h], ?_⟩
  intro hsome
  simp only [writeThrough] at hsome
  split at hsome
  · next hall => rw [hall, take_length]
  · cases hsome

lemma grows_buffer : w.Grows data (some takes, { w with buffer := w.buffer ++ data }) :=
  ⟨data, prefix_refl _, by simp [stream], fun _ => rfl⟩

lemma grows_writeAll : w.Grows data (w.writeAll data takes) := by
  have hcapacity : 0 < capacity := by decide
  rw [writeAll]
  by_cases hfits : data.length < capacity - w.buffer.length
  · rw [if_pos hfits]
    exact grows_buffer
  rw [if_neg hfits]
  by_cases hfull : data.length > capacity - w.buffer.length
  · rw [if_pos hfull]
    rcases hflush : w.flushBuf takes with ⟨result, w₁⟩
    obtain ⟨hstream, hbuffer⟩ := flushBuf_spec hflush
    cases result with
    | none => exact ⟨[], nil_prefix, by simpa using hstream, fun h => by cases h⟩
    | some rest =>
      have hgrows : w₁.Grows data (if data.length ≥ capacity then w₁.writeThrough data rest
          else (some rest, { w₁ with buffer := w₁.buffer ++ data })) := by
        split
        · exact grows_writeThrough (hbuffer rfl)
        · exact grows_buffer
      simpa only [Grows, hstream] using hgrows
  · rw [if_neg hfull]
    dsimp only
    split
    · next hlarge =>
      exact grows_writeThrough (length_eq_zero_iff.mp (by omega))
    · exact grows_buffer

lemma stream_writeEntry (w : Writer) (syncOnWrite : Bool) (data : List UInt8) (disk : Disk) :
    ∃ piece, piece <+: data ∧ (w.writeEntry syncOnWrite data disk).2.stream = w.stream ++ piece ∧
      ((w.writeEntry syncOnWrite data disk).1 = .ok () → piece = data) := by
  have hgrows : w.Grows data (w.writeAll data disk.takes) := grows_writeAll
  rw [writeEntry]
  rcases hwrite : w.writeAll data disk.takes with ⟨result, w₁⟩
  rw [hwrite] at hgrows
  obtain ⟨piece, hpiece, hstream, hall⟩ := hgrows
  refine ⟨piece, hpiece, ?_⟩
  cases result with
  | none => exact ⟨hstream, fun h => by cases h⟩
  | some takes =>
    refine ⟨?_, fun _ => hall rfl⟩
    rw [← hstream]
    dsimp only
    split
    · rcases hflush : w₁.flushBuf takes with ⟨flushed, w₂⟩
      obtain ⟨hsame, -⟩ := flushBuf_spec hflush
      cases flushed with
      | none => exact hsame
      | some _ =>
        dsimp only
        split <;> exact hsame
    · rfl

end Writer

/-! ### Runs -/

structure State where
  file : List UInt8
  /-- `none` when the log did not open -/
  log : Option Log
  /-- the calls that returned `Ok`, for the statements -/
  confirmed : List Numbered
  /-- where the last of them ends -/
  confirmedEnd : ℕ

inductive Action where
  | call (c : Call) (disk : Disk)
  /-- the process dies, the file is cut there, and the log is opened again -/
  | crash (cut : ℕ)

def State.init : State where
  file := Log.create.2
  log := some Log.create.1
  confirmed := []
  confirmedEnd := 16

variable (crc) (syncOnWrite : Bool)

def step (s : State) : Action → Option State
  | .call c disk =>
    match s.log with
    | none => none
    | some log =>
      match log.write crc syncOnWrite s.file c disk with
      | (.ok lsn, log', file) =>
        some ⟨file, some log', s.confirmed ++ [(c, lsn)], file.length + log'.buffer.length⟩
      | (.error _, log', file) => some { s with file, log := some log' }
  | .crash cut =>
    if (s.confirmed = [] ∨ s.confirmedEnd ≤ cut) ∧ cut ≤ s.file.length then
      match Log.new crc (s.file.take cut) with
      | .ok (log, file) => some { s with file, log := some log }
      | .error _ => some { s with file := s.file.take cut, log := none }
    else none

def Succeeds (s : State) (log : Log) (c : Call) (disk : Disk) : Prop :=
  ((Writer.mk s.file log.buffer).writeEntry syncOnWrite (c.serialize log.lsn crc) disk).1 = .ok ()

instance (s : State) (log : Log) (c : Call) (disk : Disk) :
    Decidable (Succeeds crc syncOnWrite s log c disk) :=
  inferInstanceAs (Decidable (_ = _))

/-- Nothing that a failed call wrote or buffered stands behind the calls that returned. -/
def Clean (s : State) (log : Log) : Prop := s.file.length + log.buffer.length = s.confirmedEnd

instance (s : State) (log : Log) : Decidable (Clean s log) := inferInstanceAs (Decidable (_ = _))

/-- A call goes through only on a clean file, with an entry the log can read back, and decides nothing
that was completed; a crash leaves the header and, behind the calls that returned, nothing that reads
as an entry. -/
def Meets (s : State) : Action → Prop
  | .call c disk => ∀ log ∈ s.log, Succeeds crc syncOnWrite s log c disk →
      Clean s log ∧ c.Readable ∧
        (c.entryType ≠ .complete → ¬ Completed (entriesOf s.confirmed) c.txId)
  | .crash cut => 16 ≤ cut ∧ readEntry crc ((s.file.take cut).drop s.confirmedEnd) = none

instance (s : State) : (a : Action) → Decidable (Meets crc syncOnWrite s a)
  | .call _ _ => inferInstanceAs (Decidable (∀ log ∈ s.log, _))
  | .crash _ => inferInstanceAs (Decidable (_ ∧ _))

variable {crc} in
/-- A piece of an entry is not read as one, so a crash within the entry of a failed call will do. -/
theorem meets_crash_of_piece {s : State} (hcut : 16 ≤ cut) (hc : c.Readable)
    (hpiece : (s.file.take cut).drop s.confirmedEnd <+: c.serialize lsn crc)
    (hproper : (s.file.take cut).drop s.confirmedEnd ≠ c.serialize lsn crc) :
    Meets crc syncOnWrite s (.crash cut) :=
  ⟨hcut, readEntry_prefix hc hpiece hproper⟩

/-! ### The invariant -/

structure Inv (s : State) : Prop where
  ends : (fileOf crc s.confirmed).length = s.confirmedEnd
  readable : ∀ n ∈ s.confirmed, n.1.Readable
  scanned : (scanOf (entriesOf s.confirmed)).1 = pendingOf (entriesOf s.confirmed)
  live : ∃ log, s.log = some log ∧ log.pending = pendingOf (entriesOf s.confirmed) ∧
    fileOf crc s.confirmed <+: s.file ++ log.buffer

lemma inv_init : Inv crc State.init where
  ends := rfl
  readable := by simp [State.init]
  scanned := rfl
  live := ⟨_, rfl, rfl, by simp [State.init, Log.create, fileOf, bytesOf]⟩

variable {crc syncOnWrite} {s s' : State}

variable (hinv : Inv crc s)

include hinv

lemma inv_call {disk : Disk} (hmeets : Meets crc syncOnWrite s (.call c disk))
    (hstep : step crc syncOnWrite s (.call c disk) = some s') : Inv crc s' := by
  obtain ⟨hends, hreadable, hscanned, log, hlog, hpending, hfile⟩ := hinv
  have hmeets := hmeets log hlog
  obtain ⟨piece, -, hstream, hall⟩ := Writer.stream_writeEntry ⟨s.file, log.buffer⟩ syncOnWrite
    (c.serialize log.lsn crc) disk
  simp only [step, hlog, Log.write] at hstep
  simp only [Succeeds] at hmeets
  rcases hwrite : (Writer.mk s.file log.buffer).writeEntry syncOnWrite (c.serialize log.lsn crc) disk
    with ⟨result, w⟩
  rw [hwrite] at hstep hmeets hstream hall
  cases result with
  | error e =>
    cases hstep
    refine ⟨hends, hreadable, hscanned, _, rfl, hpending, ?_⟩
    exact hfile.trans ⟨piece, hstream.symm⟩
  | ok u =>
    cases hstep
    obtain ⟨hclean, hcall, horder⟩ := hmeets rfl
    obtain rfl := hall rfl
    have hentries : entriesOf (s.confirmed ++ [(c, log.lsn)]) =
        entriesOf s.confirmed ++ [c.entry log.lsn] := by simp [entriesOf]
    have hwhole : s.file ++ log.buffer = fileOf crc s.confirmed := by
      refine (hfile.eq_of_length ?_).symm
      rw [hends, length_append]
      exact hclean.symm
    have hnew : w.file ++ w.buffer = fileOf crc (s.confirmed ++ [(c, log.lsn)]) := by
      rw [fileOf_snoc, ← hwhole]
      exact hstream
    refine ⟨?_, ?_, ?_, _, rfl, ?_, ?_⟩
    · rw [← hnew, length_append]
    · intro n hn
      rcases mem_append.mp hn with hn | hn
      · exact hreadable n hn
      · obtain rfl := mem_singleton.mp hn
        exact hcall
    · rw [hentries]
      exact scanOf_snoc_eq hscanned horder
    · rw [hentries, pendingOf_snoc, ← hpending]
    · exact hnew ▸ prefix_refl _

variable (hmeets : Meets crc syncOnWrite s (.crash cut))

include hmeets

variable (hstep : step crc syncOnWrite s (.crash cut) = some s')

include hstep

/-- A crash that leaves nothing readable behind the calls brings the file of the calls and its log. -/
lemma step_crash :
    s' = { s with file := fileOf crc s.confirmed, log := some (logOf s.confirmed) } := by
  obtain ⟨hends, hreadable, -, log, -, -, hfile⟩ := hinv
  obtain ⟨hheader, hjunk⟩ := hmeets
  simp only [step] at hstep
  split at hstep
  case isFalse => cases hstep
  case isTrue hguard =>
    obtain ⟨hcut, hle⟩ := hguard
    have hkept : s.confirmedEnd ≤ cut := by
      rcases hcut with hnone | hcut
      · rw [← hends, hnone]
        exact hheader
      · exact hcut
    have hprefix : fileOf crc s.confirmed <+: s.file.take cut := by
      refine prefix_take_iff.mpr ⟨?_, by omega⟩
      exact prefix_of_prefix_length_le hfile (prefix_append _ _) (by omega)
    obtain ⟨junk, hsplit⟩ := hprefix
    have hrest : (s.file.take cut).drop s.confirmedEnd = junk := by
      rw [← hsplit, drop_left' hends]
    rw [hrest] at hjunk
    rw [← hsplit, new_fileOf hreadable hjunk] at hstep
    exact (Option.some.inj hstep).symm

lemma inv_crash : Inv crc s' := by
  obtain rfl := step_crash hinv hmeets hstep
  exact ⟨hinv.ends, hinv.readable, hinv.scanned, _, rfl, hinv.scanned, by simp [logOf]⟩

omit hstep

omit hmeets

lemma inv_step {a : Action} (hmeets : Meets crc syncOnWrite s a)
    (hstep : step crc syncOnWrite s a = some s') : Inv crc s' := by
  cases a with
  | call c disk => exact inv_call hinv hmeets hstep
  | crash cut => exact inv_crash hinv hmeets hstep

omit hinv

/-! ### Opening again -/

/-- The log is open with what the calls that returned `Ok` determine. -/
structure Reopened (s : State) (log : Log) : Prop where
  opened : s.log = some log
  pending : log.pending = pendingOf (entriesOf s.confirmed)
  maxSeenTxId : log.maxSeenTxId = maxTxId (entriesOf s.confirmed)
  lsn : log.lsn = maxLsn (entriesOf s.confirmed) + 1

/-- In every run whose steps meet the conditions, a crash is followed by a log with the decisions, the
largest id and the next sequence number of the calls that returned `Ok`, and crashing again changes
nothing. -/
theorem reopens_to_confirmed {as : List Action} {cut : ℕ}
    (hmeets : Along (step crc syncOnWrite) (Meets crc syncOnWrite) State.init (as ++ [.crash cut]))
    (hrun : run (step crc syncOnWrite) State.init (as ++ [.crash cut]) = some s) :
    (∃ log, Reopened s log) ∧
      ∀ again s', 16 ≤ again → step crc syncOnWrite s (.crash again) = some s' → s' = s := by
  obtain ⟨s₁, hrun₁, hlast⟩ := run_append hrun
  obtain ⟨hmeets₁, hcrash⟩ := hmeets.append hrun₁
  have hinv : Inv crc s₁ :=
    invariant_run (fun _ _ _ h hm hs => inv_step h hm hs) (inv_init crc) hmeets₁ hrun₁
  obtain ⟨s₂, hstep, hend⟩ := run_cons hlast
  obtain rfl := Option.some.inj hend
  have hs := step_crash hinv hcrash.1 hstep
  have hinv₂ := inv_crash hinv hcrash.1 hstep
  refine ⟨⟨logOf s₁.confirmed, ?_⟩, ?_⟩
  · rw [hs]
    exact ⟨rfl, hinv.scanned, rfl, rfl⟩
  · intro again s' hheader hagain
    have hfile : s₂.file = fileOf crc s₂.confirmed := by rw [hs]
    have hlength : s₂.file.length = s₂.confirmedEnd := by rw [hfile, hinv₂.ends]
    have hquiet : Meets crc syncOnWrite s₂ (.crash again) := by
      refine ⟨hheader, ?_⟩
      rw [← hlength, drop_eq_nil_of_le (length_take_le' _ _)]
      rfl
    rw [step_crash hinv₂ hquiet hagain, hs]

/-! ### Runs on the checksum of the source -/

/-- The CRC-32 of `crc32fast`, a bit at a time. -/
def crc32 (data : List UInt8) : UInt32 :=
  let shift (c : UInt32) : UInt32 := if c &&& 1 = 1 then (c >>> 1) ^^^ 0xEDB88320 else c >>> 1
  data.foldl (fun c b => shift (shift (shift (shift (shift (shift (shift (shift
    (c ^^^ b.toUInt32))))))))) 0xFFFFFFFF ^^^ 0xFFFFFFFF

def sound : Disk := ⟨none, false, ""⟩

def failsAfter (n : ℕ) : Disk := ⟨some n, false, "No space left on device"⟩

/-- A commit, an abort that fails within its entry and a crash; then the completion and a crash. -/
def faultyRun : List Action :=
  [.call (.commit 7 1000 [0, 2] none) sound, .call (.abort 8 1001 [1]) (failsAfter 5), .crash 61,
    .call (.complete 7 1002) sound]

theorem reopens_to_confirmed_faultyRun :
    ∃ s, run (step crc32 true) State.init (faultyRun ++ [.crash 92]) = some s ∧
      s.confirmed.length = 2 ∧ ∃ log, Reopened s log := by
  have hlength : (run (step crc32 true) State.init (faultyRun ++ [.crash 92])).map
      (fun s => s.confirmed.length) = some 2 := by decide +kernel
  obtain ⟨s, hrun, hs⟩ := Option.map_eq_some_iff.mp hlength
  exact ⟨s, hrun, hs, (reopens_to_confirmed (by decide +kernel) hrun).1⟩

/-- What the calls that returned `Ok` determine, and what the log has after the run: how many of them
there are, the decision of the id in their map and in that of the log. -/
def outcome (txId : UInt64) (as : List Action) : Option (ℕ × Bool × Option Bool) :=
  (run (step crc32 true) State.init as).map fun s =>
    (s.confirmed.length, (pendingOf (entriesOf s.confirmed) txId).isSome,
      s.log.map fun log => (log.pending txId).isSome)

/-- A call whose sync failed decides after the reopening; so does one whose flush failed, when the
next call flushes the rest; a large entry torn in the file hides the next call that returned `Ok`; a
decision logged again after the completion is lost; and a file cut within its header does not open. -/
theorem reopening_diverges :
    outcome 1 [.call (.commit 1 1000 [0] none) ⟨none, true, "I/O error"⟩, .crash 54] =
        some (0, false, some true) ∧
      outcome 1 [.call (.commit 1 1000 [0] none) (failsAfter 0),
          .call (.commit 2 1001 [0] none) sound, .crash 92] = some (1, false, some true) ∧
      outcome 2 [.call (.commit 1 1000 (List.replicate 4100 0) none) (failsAfter 3),
          .call (.commit 2 1001 [1] none) sound, .crash 57] = some (1, true, some false) ∧
      outcome 1 [.call (.commit 1 1000 [0] none) sound, .call (.complete 1 1001) sound,
          .call (.commit 1 1002 [0] none) sound, .crash 128] = some (3, true, some false) ∧
      outcome 1 [.crash 7] = some (0, false, none) := by
  decide +kernel

end Aletheia.CommitLog
