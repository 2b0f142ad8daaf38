import Aletheia.Version

/-!
# Transaction frames in the log

A transaction logs its writes as one frame, `BeginTx`, the writes, `CommitTx`, under consecutive LSNs.
Recovery reads the entries in LSN order and gives back the writes of the complete frames, stamped
with the commit timestamp of their marker; a frame without its marker is dropped.
-/

namespace Aletheia

open List

/-- `D` are the logged writes, `C` the operations that commit by themselves: checkpoints,
declarations and drops of constraints. -/
inductive WalOperation (D C : Type) where
  | beginTx (txId : TxId)
  | commitTx (txId : TxId) (entryCount : ℕ) (commitTimestamp : Timestamp)
  | control (op : C)
  | data (op : D)
deriving DecidableEq

structure WalEntry (D C : Type) where
  lsn : ℕ
  /-- when the entry was serialized -/
  timestamp : Timestamp
  operation : WalOperation D C
  /-- the segment's format has frames -/
  framed : Bool
deriving DecidableEq

/-- The default size of a transaction's write buffer, the one transactions are opened with. -/
def defaultMaxOperations : ℕ := 50000

/-- A committing transaction as the log sees it. One without writes logs nothing. -/
structure LoggedTransaction (D : Type) where
  txId : TxId
  writes : List D
  commitTimestamp : Timestamp
  writes_ne : writes ≠ []
  writes_le : writes.length ≤ defaultMaxOperations

namespace LoggedTransaction

variable {D : Type} (C : Type) (t : LoggedTransaction D)

/-- The batch `log_operations_to_wal` appends; the count in the marker is a `u32`. -/
def frame : List (WalOperation D C) :=
  .beginTx t.txId :: t.writes.map .data ++
    [.commitTx t.txId (t.writes.length % 2 ^ 32) t.commitTimestamp]

/-- What recovery is to apply for the transaction. -/
def replayed : List (WalOperation D C × Timestamp) :=
  t.writes.map fun w => (.data w, t.commitTimestamp)

end LoggedTransaction

variable {D C : Type}

/-- The state of `resolve_transaction_frames` between two entries. -/
structure FrameScan (D C : Type) where
  resolved : List (WalOperation D C × Timestamp)
  /-- the operations of the open frame -/
  pending : List (ℕ × WalOperation D C)
  /-- the open frame's transaction and the LSN of its `BeginTx` -/
  openTx : Option (TxId × ℕ)

def lsnsContiguous (pending : List (ℕ × WalOperation D C)) : Bool :=
  (pending.zip pending.tail).all fun w => w.2.1 == w.1.1 + 1

/-- The first operation follows `BeginTx` and the last one comes right before `CommitTx`. -/
def bracketsOk (pending : List (ℕ × WalOperation D C)) (beginLsn lsn : ℕ) : Bool :=
  pending.head?.map Prod.fst == some (beginLsn + 1) &&
    pending.getLast?.map (fun p => p.1 + 1) == some lsn

def resolveEntry (s : FrameScan D C) (e : WalEntry D C) : FrameScan D C :=
  if e.framed then
    match e.operation with
    | .beginTx txId => { s with pending := [], openTx := some (txId, e.lsn) }
    | .commitTx txId entryCount commitTimestamp =>
      match s.openTx with
      | none => s
      | some (openId, beginLsn) =>
        if openId = txId ∧ s.pending.length = entryCount ∧ lsnsContiguous s.pending ∧
            bracketsOk s.pending beginLsn e.lsn then
          { resolved := s.resolved ++ s.pending.map fun p => (p.2, commitTimestamp)
            pending := [], openTx := none }
        else { s with pending := [], openTx := none }
    | .control op =>
      { resolved := s.resolved ++ [(.control op, e.timestamp)], pending := [], openTx := none }
    | .data op =>
      if s.openTx.isSome then { s with pending := s.pending ++ [(e.lsn, .data op)] }
      else { s with resolved := s.resolved ++ [(.data op, e.timestamp)] }
  else { s with resolved := s.resolved ++ [(e.operation, e.timestamp)] }

def scanFrames (entries : List (WalEntry D C)) : FrameScan D C :=
  entries.foldl resolveEntry ⟨[], [], none⟩

/-- The writes recovery applies, in order; what a frame left open at the end holds is dropped. -/
def resolveTransactionFrames (entries : List (WalEntry D C)) :
    List (WalOperation D C × Timestamp) :=
  (scanFrames entries).resolved

lemma scanFrames_snoc (entries : List (WalEntry D C)) (e : WalEntry D C) :
    scanFrames (entries ++ [e]) = resolveEntry (scanFrames entries) e := by
  simp [scanFrames]

/-- The first `n` operations of a band that starts after `beginLsn`. -/
def band (beginLsn : ℕ) (writes : List D) : List (ℕ × WalOperation D C) :=
  writes.zipIdx.map fun p => (beginLsn + 1 + p.2, .data p.1)

lemma band_snoc (beginLsn : ℕ) (writes : List D) (w : D) : band (C := C) beginLsn (writes ++ [w]) =
      band beginLsn writes ++ [(beginLsn + 1 + writes.length, .data w)] := by
  simp [band, zipIdx_append]

@[simp] lemma length_band (beginLsn : ℕ) (writes : List D) :
    (band (C := C) beginLsn writes).length = writes.length := by
  simp [band]

lemma getElem?_band (beginLsn : ℕ) (writes : List D) (i : ℕ) : (band (C := C) beginLsn writes)[i]? =
      writes[i]?.map fun w => (beginLsn + 1 + i, .data w) := by
  simp only [band, List.getElem?_map, List.getElem?_zipIdx, Option.map_map]
  cases writes[i]? <;> simp

lemma map_band {α : Type} (f : WalOperation D C → α) (beginLsn : ℕ) (writes : List D) :
    (band (C := C) beginLsn writes).map (fun p => f p.2) = writes.map fun w => f (.data w) := by
  apply ext_getElem?
  intro i
  rw [List.getElem?_map, List.getElem?_map, getElem?_band, Option.map_map]
  rfl

lemma lsnsContiguous_band (beginLsn : ℕ) (writes : List D) :
    lsnsContiguous (band (C := C) beginLsn writes) = true := by
  unfold lsnsContiguous
  rw [all_eq_true]
  intro w hw
  obtain ⟨i, hi⟩ := mem_iff_getElem?.mp hw
  rw [List.getElem?_zip_eq_some] at hi
  obtain ⟨h1, h2⟩ := hi
  rw [List.getElem?_tail] at h2
  rw [getElem?_band] at h1 h2
  obtain ⟨a, _, ha⟩ := Option.map_eq_some_iff.mp h1
  obtain ⟨b, _, hb⟩ := Option.map_eq_some_iff.mp h2
  rw [← ha, ← hb, beq_iff_eq]
  show beginLsn + 1 + (i + 1) = beginLsn + 1 + i + 1
  omega

lemma bracketsOk_band (beginLsn : ℕ) {writes : List D} (hne : writes ≠ []) :
    bracketsOk (band (C := C) beginLsn writes) beginLsn (beginLsn + 1 + writes.length) = true := by
  have hlen : 0 < writes.length := length_pos_iff.mpr hne
  unfold bracketsOk
  rw [List.head?_eq_getElem?, List.getLast?_eq_getElem?, getElem?_band, getElem?_band, length_band]
  obtain ⟨w, hw⟩ : ∃ w, writes[0]? = some w := ⟨writes[0], List.getElem?_eq_getElem hlen⟩
  obtain ⟨w', hw'⟩ : ∃ w, writes[writes.length - 1]? = some w :=
    ⟨writes[writes.length - 1], List.getElem?_eq_getElem (by omega)⟩
  rw [hw, hw']
  simp only [Option.map_some, Bool.and_eq_true, beq_iff_eq, Option.some.injEq]
  exact ⟨by simp, by omega⟩

namespace LoggedTransaction

variable {t : LoggedTransaction D}

@[simp] lemma length_frame (t : LoggedTransaction D) :
    (t.frame C).length = t.writes.length + 2 := by
  simp [frame]

lemma frame_zero (t : LoggedTransaction D) : (t.frame C)[0]? = some (.beginTx t.txId) := by
  simp [frame]

lemma frame_write (t : LoggedTransaction D) {i : ℕ} {w : D} (hw : t.writes[i]? = some w) :
    (t.frame C)[i + 1]? = some (.data w) := by
  obtain ⟨hi, _⟩ := List.getElem?_eq_some_iff.mp hw
  unfold frame
  rw [cons_append, List.getElem?_cons_succ, List.getElem?_append_left (by simpa using hi),
    List.getElem?_map, hw, Option.map_some]

lemma frame_last (t : LoggedTransaction D) : (t.frame C)[t.writes.length + 1]? =
      some (.commitTx t.txId (t.writes.length % 2 ^ 32) t.commitTimestamp) := by
  unfold frame
  rw [cons_append, List.getElem?_cons_succ, List.getElem?_append_right (by simp)]
  simp

/-- What the scan has open once the first `n` entries of a frame are read. -/
def Open (t : LoggedTransaction D) (firstLsn n : ℕ) (s : FrameScan D C) : Prop :=
  0 < n → s.openTx = some (t.txId, firstLsn) ∧ s.pending = band firstLsn (t.writes.take (n - 1))

variable {firstLsn n : ℕ} {s : FrameScan D C} {e : WalEntry D C}

lemma Open.next (h : t.Open firstLsn n s) (hn : n < t.writes.length + 1)
    (hlsn : e.lsn = firstLsn + n) (hop : (t.frame C)[n]? = some e.operation)
    (hframed : e.framed = true) :
    t.Open firstLsn (n + 1) (resolveEntry s e) ∧ (resolveEntry s e).resolved = s.resolved := by
  unfold resolveEntry
  rw [if_pos hframed]
  cases n with
  | zero =>
    rw [frame_zero] at hop
    rw [← Option.some.inj hop]
    exact ⟨fun _ => ⟨by rw [hlsn]; rfl, rfl⟩, rfl⟩
  | succ i =>
    have hi : i < t.writes.length := by omega
    obtain ⟨w, hw⟩ : ∃ w, t.writes[i]? = some w := ⟨t.writes[i], List.getElem?_eq_getElem hi⟩
    obtain ⟨hopen, hpending⟩ := h (by omega)
    rw [frame_write t hw] at hop
    rw [← Option.some.inj hop]
    simp only [hopen, Option.isSome_some, if_true]
    refine ⟨fun _ => ⟨rfl, ?_⟩, trivial⟩
    have hlsn' : e.lsn = firstLsn + 1 + i := by omega
    have htake : t.writes.take (i + 1) = t.writes.take i ++ [w] := by
      rw [take_add_one, hw, Option.toList_some]
    rw [Nat.add_sub_cancel, htake, band_snoc, hpending, hlsn', Nat.add_sub_cancel,
      length_take, min_eq_left hi.le]

lemma Open.last (h : t.Open firstLsn (t.writes.length + 1) s)
    (hlsn : e.lsn = firstLsn + (t.writes.length + 1))
    (hop : (t.frame C)[t.writes.length + 1]? = some e.operation) (hframed : e.framed = true) :
    (resolveEntry s e).resolved = s.resolved ++ t.replayed C := by
  obtain ⟨hopen, hpending⟩ := h (by omega)
  rw [Nat.add_sub_cancel, take_length] at hpending
  have hcount : t.writes.length % 2 ^ 32 = t.writes.length := by
    have := t.writes_le
    unfold defaultMaxOperations at this
    omega
  have hbrackets := bracketsOk_band (C := C) firstLsn t.writes_ne
  have hend : firstLsn + (t.writes.length + 1) = firstLsn + 1 + t.writes.length := by omega
  unfold resolveEntry
  rw [if_pos hframed]
  rw [frame_last, hcount] at hop
  rw [← Option.some.inj hop]
  simp only [hopen, hpending, length_band, lsnsContiguous_band, hlsn, hend, hbrackets, and_self,
    if_true]
  exact congrArg _ (map_band (fun op => (op, t.commitTimestamp)) firstLsn t.writes)

end LoggedTransaction

end Aletheia
