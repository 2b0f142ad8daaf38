import Mathlib.Data.List.Dedup
import Aletheia.Machine
import Aletheia.Version

/-!
# The two-phase commit of the shard coordinator

A distributed transaction is prepared at every participant and then committed or aborted there. The
coordinator keeps its transactions in memory and its decisions in a log file; after a crash it
opens the log and commits what is pending in it.

A call to the coordinator is taken apart into the steps between which another thread may run or the
process may crash: the removal of the transaction from the active map, each log write, each message
to a participant. The maps of the source iterate in no fixed order, so a step over a map is told
which of the remaining keys is next.
-/

namespace Aletheia.Sharding

/-- The ids up to `MAX_SHARD_ID`. -/
abbrev ShardId := Fin 65535

instance neZero_shards : NeZero 65535 := ⟨by decide⟩

instance : LawfulBEq ShardId := inferInstance

inductive TransactionPhase where
  | pending | preparing | prepared | committing | committed | aborted | failed
deriving DecidableEq, Repr

inductive ParticipantState where
  | unknown | prepared | committed | aborted | unreachable
deriving DecidableEq, Repr

inductive DistributedTxError where
  | prepareFailed (failedParticipants : List ShardId)
  | commitFailed (txId : TxId) (failedParticipants : List ShardId)
  | participantUnavailable (shardId : ShardId)
  | aborted (reason : String)
  | invalidStateTransition (source target : TransactionPhase)
deriving DecidableEq

namespace DistributedTxError

def notFound : DistributedTxError := .aborted "Transaction not found"

def notDeadLettered (txId : TxId) : DistributedTxError :=
  .aborted ("Transaction " ++ toString txId.val ++ " not found in dead letter queue")

def noDecision (txId : TxId) : DistributedTxError :=
  .aborted ("No commit decision found for transaction " ++ toString txId.val)

def logFailed (message : String) : DistributedTxError :=
  .aborted ("Failed to log commit decision: " ++ message)

def idsExhausted : DistributedTxError := .aborted "Transaction ID exhausted"

end DistributedTxError

/-! ### The transaction -/

structure DistributedTransaction where
  txId : TxId
  phase : TransactionPhase
  /-- a map: no shard twice -/
  participants : List (ShardId × ParticipantState)
  commitDecisionLogged : Bool
  commitTimestamp : Option Timestamp
deriving DecidableEq

namespace DistributedTransaction

def new (txId : TxId) (participants : List ShardId) : DistributedTransaction where
  txId := txId
  phase := .pending
  participants := participants.dedup.map fun shard => (shard, .unknown)
  commitDecisionLogged := false
  commitTimestamp := none

variable (tx : DistributedTransaction)

def participantShards : List ShardId := tx.participants.map Prod.fst

def beginPrepare : Except DistributedTxError DistributedTransaction :=
  if tx.phase = .pending then .ok { tx with phase := .preparing }
  else .error (.invalidStateTransition tx.phase .preparing)

/-- Set the state of a participant; a shard that takes no part is ignored. -/
def record (state : ParticipantState) (shard : ShardId) : DistributedTransaction :=
  { tx with participants := tx.participants.map fun p => if p.1 = shard then (shard, state) else p }

def recordPrepareSuccess : ShardId → DistributedTransaction := tx.record .prepared
def recordPrepareFailure : ShardId → DistributedTransaction := tx.record .aborted
def recordUnreachable : ShardId → DistributedTransaction := tx.record .unreachable
def recordCommitSuccess : ShardId → DistributedTransaction := tx.record .committed

/-- The participants in another state. -/
def without (state : ParticipantState) : List ShardId :=
  (tx.participants.filter fun p => p.2 ≠ state).map Prod.fst

def all (state : ParticipantState) : Bool := tx.participants.all fun p => p.2 = state
def any (state : ParticipantState) : Bool := tx.participants.any fun p => p.2 = state

def allPrepared : Bool := tx.all .prepared
def anyAborted : Bool := tx.any .aborted
def anyUnreachable : Bool := tx.any .unreachable
def allCommitted : Bool := tx.all .committed
def uncommittedParticipants : List ShardId := tx.without .committed

def markPrepared : Except DistributedTxError DistributedTransaction :=
  if tx.phase ≠ .preparing then .error (.invalidStateTransition tx.phase .prepared)
  else if !tx.allPrepared then .error (.prepareFailed (tx.without .prepared))
  else .ok { tx with phase := .prepared }

def beginCommit : Except DistributedTxError DistributedTransaction :=
  if tx.phase = .prepared then .ok { tx with phase := .committing }
  else .error (.invalidStateTransition tx.phase .committing)

def markCommitted : Except DistributedTxError DistributedTransaction :=
  if tx.phase ≠ .committing then .error (.invalidStateTransition tx.phase .committed)
  else if !tx.allCommitted then .error (.commitFailed tx.txId tx.uncommittedParticipants)
  else .ok { tx with phase := .committed }

def abort : DistributedTransaction :=
  { tx with
    phase := .aborted
    participants := tx.participants.map fun p => if p.2 = .committed then p else (p.1, .aborted) }

def markFailed : DistributedTransaction := { tx with phase := .failed }

def attempt (transition : DistributedTransaction → Except DistributedTxError DistributedTransaction) :
    DistributedTransaction :=
  match transition tx with
  | .ok tx => tx
  | .error _ => tx

/-- Keep the commit timestamp, or draw one from the clock. -/
def stamp (clock : Except DistributedTxError Timestamp) :
    Except DistributedTxError DistributedTransaction :=
  match tx.commitTimestamp with
  | some _ => .ok tx
  | none => clock.map fun ts => { tx with commitTimestamp := some ts }

end DistributedTransaction

/-! ### The commit log -/

inductive EntryType where
  | commit | abort | complete
deriving DecidableEq, Repr

structure CommitLogEntry where
  lsn : ℕ
  entryType : EntryType
  txId : TxId
  participants : List ShardId
  commitTimestamp : Option Timestamp
deriving DecidableEq

/-- The entry records the decision to commit the transaction. -/
def CommitLogEntry.commits (x : TxId) (e : CommitLogEntry) : Bool :=
  e.entryType = .commit ∧ e.txId = x

/-- What became of a write to the log file. -/
inductive WriteOutcome where
  | written
  /-- the write is reported as failed, but the entry is in the writer's buffer or in the page cache
  and may still reach the disk -/
  | unconfirmed (message : String)
  | lost (message : String)

structure PersistentCommitLog where
  /-- the entries on disk -/
  file : List CommitLogEntry
  /-- entries that follow those of the file with the next write that succeeds -/
  buffered : List CommitLogEntry
  lsn : ℕ
  /-- a map by transaction -/
  pending : List CommitLogEntry
  maxSeenTxId : ℕ

namespace PersistentCommitLog

/-- The decisions without a completion, and the completed transactions. -/
def scanEntry (found : List CommitLogEntry × List TxId) (e : CommitLogEntry) :
    List CommitLogEntry × List TxId :=
  match e.entryType with
  | .commit | .abort =>
    if e.txId ∈ found.2 then found
    else (found.1.filter (fun d => d.txId ≠ e.txId) ++ [e], found.2)
  | .complete => (found.1.filter fun d => d.txId ≠ e.txId, e.txId :: found.2)

def new (file : List CommitLogEntry) : PersistentCommitLog where
  file := file
  buffered := []
  lsn := (file.map CommitLogEntry.lsn).foldr max 0 + 1
  pending := (file.foldl scanEntry ([], [])).1
  maxSeenTxId := (file.map fun e => e.txId.val).foldr max 0

variable (log : PersistentCommitLog)

/-- The entries that are on disk or may get there. -/
def entries : List CommitLogEntry := log.file ++ log.buffered

/-- Write the next entry; the map of pending decisions is updated only after a successful write. -/
def writeEntry (entryType : EntryType) (txId : TxId) (participants : List ShardId)
    (commitTimestamp : Option Timestamp)
    (update : CommitLogEntry → List CommitLogEntry → List CommitLogEntry) :
    WriteOutcome → Except String Unit × PersistentCommitLog :=
  let entry : CommitLogEntry := ⟨log.lsn, entryType, txId, participants, commitTimestamp⟩
  let log' := { log with lsn := log.lsn + 1, maxSeenTxId := max log.maxSeenTxId txId.val }
  fun
  | .written =>
    (.ok (),
      { log' with
        file := log.file ++ (log.buffered ++ [entry])
        buffered := []
        pending := update entry log.pending })
  | .unconfirmed message => (.error message, { log' with buffered := log.buffered ++ [entry] })
  | .lost message => (.error message, log')

def insertPending (entry : CommitLogEntry) (pending : List CommitLogEntry) : List CommitLogEntry :=
  pending.filter (fun d => d.txId ≠ entry.txId) ++ [entry]

def removePending (entry : CommitLogEntry) (pending : List CommitLogEntry) : List CommitLogEntry :=
  pending.filter fun d => d.txId ≠ entry.txId

def logCommit (txId : TxId) (participants : List ShardId) (commitTimestamp : Option Timestamp) :
    WriteOutcome → Except String Unit × PersistentCommitLog :=
  log.writeEntry .commit txId participants commitTimestamp insertPending

def logAbort (txId : TxId) (participants : List ShardId) :
    WriteOutcome → Except String Unit × PersistentCommitLog :=
  log.writeEntry .abort txId participants none insertPending

def logComplete (txId : TxId) : WriteOutcome → Except String Unit × PersistentCommitLog :=
  log.writeEntry .complete txId [] none removePending

def pendingCommits : List CommitLogEntry := log.pending.filter fun d => d.entryType = .commit

def getDecision (txId : TxId) : Option CommitLogEntry := log.pending.find? fun d => d.txId = txId

end PersistentCommitLog

/-! ### The coordinator -/

structure ShardConnection where
  shardId : ShardId
  healthy : Bool

namespace ShardConnection

variable (conn : ShardConnection)

/-- The calls to a shard: they arrive exactly when the connection is healthy. -/
def request : Except DistributedTxError Unit :=
  if conn.healthy then .ok () else .error (.participantUnavailable conn.shardId)

def prepare : Except DistributedTxError Unit := conn.request
def commit : Except DistributedTxError Unit := conn.request
def abort : Except DistributedTxError Unit := conn.request

/-- `commit` with retries; the read lock on the connections is held between them. -/
def commitRetrying : ℕ → Except DistributedTxError Unit
  | 0 => conn.commit
  | retries + 1 =>
    match conn.commit with
    | .ok () => .ok ()
    | .error _ => commitRetrying retries

end ShardConnection

/-- What the participants and the caller see of a transaction. -/
inductive Event where
  | begun (txId : TxId) (participants : List ShardId)
  /-- the participant acknowledged the prepare -/
  | acknowledged (txId : TxId) (shard : ShardId)
  | committed (txId : TxId) (shard : ShardId)
  | aborted (txId : TxId) (shard : ShardId)
deriving DecidableEq

structure DeadLetteredTransaction where
  txId : TxId
  reason : DistributedTxError
  attemptCount : ℕ
deriving DecidableEq

/-- `recover_pending_transactions` between two transactions. -/
structure Recovery where
  decisions : List CommitLogEntry
  recovered : List TxId
  deadLettered : List DeadLetteredTransaction
  /-- the recovery that opens the coordinator -/
  startup : Bool
deriving DecidableEq

/-- Where `commit_distributed_transaction` was called. -/
inductive Caller where
  | client
  | recovery (attempts : ℕ) (rest : Recovery)
deriving DecidableEq

inductive Reply where
  | begun (txId : TxId)
  | done
  | recovery (recovered : List TxId) (deadLettered : List DeadLetteredTransaction)
  | failed (error : DistributedTxError)
deriving DecidableEq

/-- What a thread has still to do. A transaction is out of the active map while a call works on
it. -/
inductive Call where
  | idle
  | returned (reply : Reply)
  | preparing (tx : DistributedTransaction) (rest unavailable : List ShardId)
  /-- the prepare failed, the participants are told to abort -/
  | abandoning (tx : DistributedTransaction) (rest unavailable : List ShardId)
  /-- the next step calls `commit_distributed_transaction` -/
  | calling (txId : TxId) (caller : Caller)
  /-- the next step writes the commit decision -/
  | deciding (tx : DistributedTransaction) (caller : Caller)
  | committing (tx : DistributedTransaction) (rest unavailable : List ShardId) (caller : Caller)
  | completing (tx : DistributedTransaction) (caller : Caller)
  /-- the next step writes the abort decision -/
  | refusing (tx : DistributedTransaction)
  | aborting (tx : DistributedTransaction) (rest : List ShardId)
  | recovering (recovery : Recovery)
deriving DecidableEq

inductive Status where
  | down | starting | serving
deriving DecidableEq

structure ShardCoordinator where
  /-- the shards of the configuration -/
  shards : List ShardId
  status : Status
  connections : ShardId → Option ShardConnection
  txIdGenerator : ℕ
  activeTransactions : TxId → Option DistributedTransaction
  commitLog : PersistentCommitLog
  deadLetterQueue : TxId → Option DeadLetteredTransaction
  calls : ℕ → Call
  /-- newest first -/
  events : List Event

namespace ShardCoordinator

def maxValidId : ℕ := 2 ^ 64 - 1 - 1000

def maxRetries : ℕ := 3
def maxRecoveryAttempts : ℕ := 5

variable (s : ShardCoordinator) (i : ℕ)

def setCall (call : Call) : ShardCoordinator := { s with calls := Function.update s.calls i call }

def reply (r : Reply) : ShardCoordinator := s.setCall i (.returned r)

/-- Put a transaction (back) into the active map, or take it out. -/
def setActive (x : TxId) (tx : Option DistributedTransaction) : ShardCoordinator :=
  { s with activeTransactions := Function.update s.activeTransactions x tx }

def reinsertTransaction (tx : DistributedTransaction) : ShardCoordinator :=
  s.setActive tx.txId (some tx)

def emit (e : Event) : ShardCoordinator := { s with events := e :: s.events }

def setHealth (healthy : Bool) (shard : ShardId) : ShardCoordinator :=
  { s with
    connections := Function.update s.connections shard
      ((s.connections shard).map fun conn => { conn with healthy }) }

def markShardUnavailable : ShardId → ShardCoordinator := s.setHealth false
def markShardAvailable : ShardId → ShardCoordinator := s.setHealth true

def markAllUnavailable (unavailable : List ShardId) : ShardCoordinator :=
  unavailable.foldl markShardUnavailable s

def beginDistributedTransaction (participants : List ShardId) : ShardCoordinator :=
  let x : TxId := ⟨s.txIdGenerator⟩
  let s := { s with txIdGenerator := s.txIdGenerator + 1 }
  if x.val ≤ maxValidId then
    ((s.reinsertTransaction (.new x participants)).emit (.begun x participants.dedup)).reply i
      (.begun x)
  else s.reply i (.failed .idsExhausted)

/-! ### Prepare -/

def prepareDistributedTransaction (x : TxId) (clock : Except DistributedTxError Timestamp) :
    ShardCoordinator :=
  match s.activeTransactions x with
  | none => s.reply i (.failed .notFound)
  | some tx =>
    match tx.beginPrepare with
    | .error e => s.reply i (.failed e)
    | .ok tx =>
      match tx.stamp clock with
      | .error e => (s.setActive x (some { tx with phase := .pending })).reply i (.failed e)
      | .ok tx => (s.setActive x none).setCall i (.preparing tx tx.participantShards [])

def contactPrepare (tx : DistributedTransaction) (rest unavailable : List ShardId)
    (shard : ShardId) : ShardCoordinator :=
  match s.connections shard with
  | none =>
    s.setCall i (.preparing (tx.recordUnreachable shard) rest (unavailable ++ [shard]))
  | some conn =>
    match conn.prepare with
    | .ok () =>
      (s.emit (.acknowledged tx.txId shard)).setCall i
        (.preparing (tx.recordPrepareSuccess shard) rest unavailable)
    | .error (.participantUnavailable _) =>
      s.setCall i (.preparing (tx.recordUnreachable shard) rest (unavailable ++ [shard]))
    | .error _ => s.setCall i (.preparing (tx.recordPrepareFailure shard) rest unavailable)

/-- All participants were asked. -/
def endPrepare (tx : DistributedTransaction) (unavailable : List ShardId) : ShardCoordinator :=
  if tx.anyAborted || tx.anyUnreachable then
    s.setCall i (.abandoning tx tx.participantShards unavailable)
  else
    match tx.markPrepared with
    | .error e => (s.reinsertTransaction tx).reply i (.failed e)
    | .ok tx => (s.reinsertTransaction tx).reply i .done

/-- Tell one participant to abort; nothing is made of a failure. -/
def contactAbort (x : TxId) (shard : ShardId) : ShardCoordinator :=
  match s.connections shard with
  | none => s
  | some conn =>
    match conn.abort with
    | .ok () => s.emit (.aborted x shard)
    | .error _ => s

def endAbandon (tx : DistributedTransaction) (unavailable : List ShardId) : ShardCoordinator :=
  ((s.markAllUnavailable unavailable).reinsertTransaction tx.abort).reply i
    (.failed (.prepareFailed (tx.without .prepared)))

/-! ### Commit -/

/-- A recovery tries the transaction again, and gives it up after the last attempt. -/
def commitFailed (x : TxId) (e : DistributedTxError) : Caller → ShardCoordinator
  | .client => s.reply i (.failed e)
  | .recovery attempts r =>
    if attempts + 1 < maxRecoveryAttempts then
      s.setCall i (.calling x (.recovery (attempts + 1) r))
    else
      (s.setActive x none).setCall i
        (.recovering { r with deadLettered := r.deadLettered ++ [⟨x, e, attempts + 1⟩] })

def commitDone (x : TxId) : Caller → ShardCoordinator
  | .client => s.reply i .done
  | .recovery _ r => s.setCall i (.recovering { r with recovered := r.recovered ++ [x] })

def commitDistributedTransaction (x : TxId) (clock : Except DistributedTxError Timestamp)
    (caller : Caller) : ShardCoordinator :=
  match s.activeTransactions x with
  | none => s.commitFailed i x .notFound caller
  | some tx =>
    match tx.stamp clock with
    | .error e => s.commitFailed i x e caller
    | .ok tx => (s.setActive x none).setCall i (.deciding tx caller)

/-- The log has no decision yet, or not this one. -/
def shouldLog (tx : DistributedTransaction) : Bool :=
  match s.commitLog.getDecision tx.txId with
  | some existing =>
    !tx.commitDecisionLogged || existing.entryType ≠ .commit ||
      existing.commitTimestamp ≠ tx.commitTimestamp
  | none => true

/-- The phase is looked at only now that the decision is in the log. -/
def beginCommitPhase (tx : DistributedTransaction) (caller : Caller) : ShardCoordinator :=
  match tx.phase with
  | .committing => s.setCall i (.committing tx tx.participantShards [] caller)
  | .failed | .prepared =>
    s.setCall i (.committing { tx with phase := .committing } tx.participantShards [] caller)
  | _ =>
    match tx.beginCommit with
    | .error e => (s.reinsertTransaction tx).commitFailed i tx.txId e caller
    | .ok tx => s.setCall i (.committing tx tx.participantShards [] caller)

def logDecision (tx : DistributedTransaction) (caller : Caller) (w : WriteOutcome) :
    ShardCoordinator :=
  if s.shouldLog tx then
    match s.commitLog.logCommit tx.txId tx.participantShards tx.commitTimestamp w with
    | (.ok (), log) =>
      { s with commitLog := log }.beginCommitPhase i { tx with commitDecisionLogged := true } caller
    | (.error message, log) =>
      ({ s with commitLog := log }.reinsertTransaction tx).commitFailed i tx.txId
        (.logFailed message) caller
  else s.beginCommitPhase i tx caller

def contactCommit (tx : DistributedTransaction) (rest unavailable : List ShardId) (caller : Caller)
    (shard : ShardId) : ShardCoordinator :=
  match s.connections shard with
  | none =>
    s.setCall i (.committing (tx.recordUnreachable shard) rest (unavailable ++ [shard]) caller)
  | some conn =>
    match conn.commitRetrying maxRetries with
    | .ok () =>
      (s.emit (.committed tx.txId shard)).setCall i
        (.committing (tx.recordCommitSuccess shard) rest unavailable caller)
    | .error (.participantUnavailable _) =>
      s.setCall i (.committing (tx.recordUnreachable shard) rest (unavailable ++ [shard]) caller)
    | .error _ => s.setCall i (.committing tx rest unavailable caller)

def endCommit (tx : DistributedTransaction) (unavailable : List ShardId) (caller : Caller) :
    ShardCoordinator :=
  if tx.allCommitted then s.setCall i (.completing tx caller)
  else
    ((s.markAllUnavailable unavailable).reinsertTransaction tx.markFailed).commitFailed i tx.txId
      (.commitFailed tx.txId tx.uncommittedParticipants) caller

/-- A completion that could not be written is ignored. -/
def complete (tx : DistributedTransaction) (caller : Caller) (w : WriteOutcome) :
    ShardCoordinator :=
  let s := { s with commitLog := (s.commitLog.logComplete tx.txId w).2 }
  match tx.markCommitted with
  | .error e => s.commitFailed i tx.txId e caller
  | .ok _ => s.commitDone i tx.txId caller

/-! ### Abort -/

def abortDistributedTransaction (x : TxId) : ShardCoordinator :=
  match s.activeTransactions x with
  | none => s.reply i (.failed .notFound)
  | some tx => (s.setActive x none).setCall i (.refusing tx)

/-- The aborts are sent even if the decision could not be written. -/
def refuse (tx : DistributedTransaction) (w : WriteOutcome) : ShardCoordinator :=
  { s with commitLog := (s.commitLog.logAbort tx.txId tx.participantShards w).2 }.setCall i
    (.aborting tx tx.participantShards)

def endAbort (tx : DistributedTransaction) (w : WriteOutcome) : ShardCoordinator :=
  { s with commitLog := (s.commitLog.logComplete tx.txId w).2 }.reply i .done

/-! ### Recovery -/

/-- A transaction of which only the commit decision is known. -/
def rebuilt (d : CommitLogEntry) : DistributedTransaction :=
  let tx := (DistributedTransaction.new d.txId d.participants).attempt (·.beginPrepare)
  let tx := tx.participantShards.foldl .recordPrepareSuccess tx
  let tx := (tx.attempt (·.markPrepared)).attempt (·.beginCommit)
  { tx with commitTimestamp := d.commitTimestamp, commitDecisionLogged := true }

def recoverPendingTransactions (startup : Bool) : ShardCoordinator :=
  s.setCall i (.recovering ⟨s.commitLog.pendingCommits, [], [], startup⟩)

/-- Take up one of the remaining decisions. -/
def recoverDecision (r : Recovery) (x : TxId) : Option ShardCoordinator :=
  (r.decisions.find? fun d => d.txId = x).map fun d =>
    (s.reinsertTransaction (rebuilt d)).setCall i
      (.calling x (.recovery 0 { r with decisions := r.decisions.erase d }))

def deadLetter (queue : TxId → Option DeadLetteredTransaction) (d : DeadLetteredTransaction) :
    TxId → Option DeadLetteredTransaction :=
  Function.update queue d.txId (some d)

/-- All decisions were taken up. At startup a dead-lettered transaction is a panic. -/
def endRecovery (r : Recovery) : ShardCoordinator :=
  let s := { s with deadLetterQueue := r.deadLettered.foldl deadLetter s.deadLetterQueue }
  if r.startup then
    if r.deadLettered.isEmpty then { s with status := .serving }.setCall i .idle
    else { s with status := .down }.setCall i .idle
  else s.reply i (.recovery r.recovered r.deadLettered)

def retryDeadLetteredTransaction (x : TxId) : ShardCoordinator :=
  match s.deadLetterQueue x with
  | none => s.reply i (.failed (.notDeadLettered x))
  | some _ =>
    let s := { s with deadLetterQueue := Function.update s.deadLetterQueue x none }
    match s.commitLog.pendingCommits.find? fun d => d.txId = x with
    | none => s.reply i (.failed (.noDecision x))
    | some d => (s.reinsertTransaction (rebuilt d)).setCall i (.calling x .client)

/-! ### Crash and restart -/

/-- The process is gone; the first `n` of the buffered entries had reached the disk. -/
def crash (n : ℕ) : ShardCoordinator :=
  { s with
    status := .down
    activeTransactions := fun _ => none
    deadLetterQueue := fun _ => none
    calls := fun _ => .idle
    commitLog := { s.commitLog with
      file := s.commitLog.file ++ s.commitLog.buffered.take n
      buffered := [] } }

def connect (shards : List ShardId) (shard : ShardId) : Option ShardConnection :=
  if shard ∈ shards then some ⟨shard, true⟩ else none

/-- Open the coordinator on the log; it serves calls once the recovery has ended. -/
def restart : ShardCoordinator :=
  let log := PersistentCommitLog.new s.commitLog.file
  { s with
    status := .starting
    connections := connect s.shards
    txIdGenerator := log.maxSeenTxId + 1
    activeTransactions := fun _ => none
    commitLog := log
    deadLetterQueue := fun _ => none
    calls := fun _ => .idle }.recoverPendingTransactions 0 true

def init (shards : List ShardId) : ShardCoordinator where
  shards := shards
  status := .down
  connections := fun _ => none
  txIdGenerator := 0
  activeTransactions := fun _ => none
  commitLog := .new []
  deadLetterQueue := fun _ => none
  calls := fun _ => .idle
  events := []

/-! ### Steps -/

inductive Action where
  | begin (i : ℕ) (participants : List ShardId)
  | prepare (i : ℕ) (x : TxId) (clock : Except DistributedTxError Timestamp)
  | commit (i : ℕ) (x : TxId) (clock : Except DistributedTxError Timestamp)
  | abort (i : ℕ) (x : TxId)
  | recover (i : ℕ)
  | retry (i : ℕ) (x : TxId)
  /-- the loop of the call comes to the shard -/
  | contact (i : ℕ) (shard : ShardId)
  /-- the recovery comes to the transaction -/
  | recoverNext (i : ℕ) (x : TxId)
  /-- any other step of the call -/
  | proceed (i : ℕ) (clock : Except DistributedTxError Timestamp) (w : WriteOutcome)
  | markUnavailable (shard : ShardId)
  | markAvailable (shard : ShardId)
  | crash (n : ℕ)
  | restart

def Ready : Prop :=
  s.status = .serving ∧
    match s.calls i with
    | .idle | .returned _ => True
    | _ => False

instance : Decidable (s.Ready i) := by
  unfold Ready
  cases s.calls i <;> infer_instance

def start (s' : ShardCoordinator) : Option ShardCoordinator := if s.Ready i then some s' else none

/-- The next participant of the loop a call is in. -/
def contact (shard : ShardId) : Option ShardCoordinator :=
  match s.calls i with
  | .preparing tx rest unavailable =>
    if shard ∈ rest then some (s.contactPrepare i tx (rest.erase shard) unavailable shard) else none
  | .abandoning tx rest unavailable =>
    if shard ∈ rest then
      some ((s.contactAbort tx.txId shard).setCall i
        (.abandoning tx (rest.erase shard) unavailable))
    else none
  | .committing tx rest unavailable caller =>
    if shard ∈ rest then some (s.contactCommit i tx (rest.erase shard) unavailable caller shard)
    else none
  | .aborting tx rest =>
    if shard ∈ rest then
      some ((s.contactAbort tx.txId shard).setCall i (.aborting tx (rest.erase shard)))
    else none
  | _ => none

def proceed (clock : Except DistributedTxError Timestamp) (w : WriteOutcome) :
    Option ShardCoordinator :=
  match s.calls i with
  | .preparing tx [] unavailable => some (s.endPrepare i tx unavailable)
  | .abandoning tx [] unavailable => some (s.endAbandon i tx unavailable)
  | .calling x caller => some (s.commitDistributedTransaction i x clock caller)
  | .deciding tx caller => some (s.logDecision i tx caller w)
  | .committing tx [] unavailable caller => some (s.endCommit i tx unavailable caller)
  | .completing tx caller => some (s.complete i tx caller w)
  | .refusing tx => some (s.refuse i tx w)
  | .aborting tx [] => some (s.endAbort i tx w)
  | .recovering r => if r.decisions = [] then some (s.endRecovery i r) else none
  | _ => none

def recoverNext (x : TxId) : Option ShardCoordinator :=
  match s.calls i with
  | .recovering r => s.recoverDecision i r x
  | _ => none

def step (s : ShardCoordinator) : Action → Option ShardCoordinator
  | .begin i participants => s.start i (s.beginDistributedTransaction i participants)
  | .prepare i x clock => s.start i (s.prepareDistributedTransaction i x clock)
  | .commit i x clock => s.start i (s.commitDistributedTransaction i x clock .client)
  | .abort i x => s.start i (s.abortDistributedTransaction i x)
  | .recover i => s.start i (s.recoverPendingTransactions i false)
  | .retry i x => s.start i (s.retryDeadLetteredTransaction i x)
  | .contact i shard => s.contact i shard
  | .recoverNext i x => s.recoverNext i x
  | .proceed i clock w => s.proceed i clock w
  | .markUnavailable shard => some (s.markShardUnavailable shard)
  | .markAvailable shard => some (s.markShardAvailable shard)
  | .crash n => some (s.crash n)
  | .restart => if s.status = .down then some s.restart else none

end ShardCoordinator

end Aletheia.Sharding
