import Aletheia.TwoPhaseCommit

/-!
# Moving labels between shards

`MigrationExecutor::execute` registers the labels of a plan for dual writes, copies their data batch
by batch from the source to the target, compares the shards and switches over. The clients answer as
they like: the answers are given by functions of the number of the call. The copy loop may run
forever, so it is given fuel.
-/

namespace Aletheia.ShardMigration

open Sharding (ShardId)

/-! ### Messages -/

structure NodeData where
  id : ℕ
  label : String
  properties : List UInt8
  validFrom : ℕ
  validTo : Option ℕ
deriving DecidableEq

structure EdgeData where
  id : ℕ
  source : ℕ
  target : ℕ
  label : String
  properties : List UInt8
  validFrom : ℕ
  validTo : Option ℕ
deriving DecidableEq

structure MigrationBatch where
  migrationId : ℕ
  batchNumber : ℕ
  isLast : Bool
  nodes : List NodeData
  edges : List EdgeData
  checksum : ℕ
deriving DecidableEq

structure MigrationResponse where
  accepted : Bool
  nodesWritten : ℕ
  edgesWritten : ℕ
  error : Option String

inductive NetworkError where
  | connectionFailed (shard : ShardId) (reason : String)
  | timeout (shard : ShardId) (operation : String) (duration : ℕ)
  | circuitOpen (shard : ShardId) (remaining : ℕ)
  | shardUnavailable (shard : ShardId)
  | serializationError (message : String)
  | protocolError (message : String)
  | poolExhausted (shard : ShardId) (maxConnections : ℕ)
deriving DecidableEq

inductive MigrationError where
  | networkError (e : NetworkError)
  | batchRejected (batchNumber : ℕ) (reason : String)
  | cancelled (id : ℕ)
  | sourceUnavailable (shard : ShardId)
  | targetUnavailable (shard : ShardId)
  | verificationFailed (id : ℕ) (reason : String)
deriving DecidableEq

def MigrationBatch.Empty (b : MigrationBatch) : Prop := b.nodes = [] ∧ b.edges = []

instance (b : MigrationBatch) : Decidable b.Empty := inferInstanceAs (Decidable (_ ∧ _))

/-- Machine addition of `u64`. -/
def add64 (a b : ℕ) : ℕ := (a + b) % 2 ^ 64

def estimateBatchSize (b : MigrationBatch) : ℕ :=
  let nodeSize := (b.nodes.map fun n => 8 + n.label.utf8ByteSize + n.properties.length + 16).sum
  let edgeSize := (b.edges.map fun e => 24 + e.label.utf8ByteSize + e.properties.length + 16).sum
  nodeSize + edgeSize + 32

/-! ### Plans and the router -/

inductive MigrationState where
  | planned
  | dualWrite
  | copying
  | verifying
  | cutover
  | cleanup
  | completed
  | failed
  | cancelled
deriving DecidableEq

structure MigrationProgress where
  totalNodes : ℕ
  migratedNodes : ℕ
  migratedEdges : ℕ
  bytesTransferred : ℕ

def MigrationProgress.update (p : MigrationProgress) (nodes edges bytes : ℕ) : MigrationProgress :=
  { p with
    migratedNodes := add64 p.migratedNodes nodes
    migratedEdges := add64 p.migratedEdges edges
    bytesTransferred := add64 p.bytesTransferred bytes }

structure MigrationPlan where
  id : ℕ
  sourceShard : ShardId
  targetShard : ShardId
  labelsToMigrate : List String
  state : MigrationState
  progress : MigrationProgress

/-- The labels registered for dual writes, with source and target. -/
structure DualWriteRouter where
  activeMigrations : List (String × ShardId × ShardId)

namespace DualWriteRouter

def registerMigration (r : DualWriteRouter) (labels : List String) (source target : ShardId) :
    DualWriteRouter :=
  ⟨labels.foldl (fun m label => (label, source, target) :: m.filter fun e => !(e.1 == label))
    r.activeMigrations⟩

def unregisterMigration (r : DualWriteRouter) (labels : List String) : DualWriteRouter :=
  ⟨labels.foldl (fun m label => m.filter fun e => !(e.1 == label)) r.activeMigrations⟩

def isLabelMigrating (r : DualWriteRouter) (label : String) : Bool :=
  r.activeMigrations.any fun e => e.1 == label

def routeWrite (r : DualWriteRouter) (label : String) (primary : ShardId) : List ShardId :=
  match r.activeMigrations.lookup label with
  | some (source, target) => if primary = source then [source, target] else [primary]
  | none => [primary]

end DualWriteRouter

structure MigrationConfig where
  batchSize : ℕ
  batchRetries : ℕ

/-! ### The clients -/

structure ShardState where
  nodeCount : ℕ

/-- How the surroundings of one call of `execute` behave. -/
structure Behaviour where
  /-- the value of the cancellation flag when it is read for the `k`-th time -/
  cancelled : ℕ → Bool
  /-- the flag is never taken back -/
  cancelledStays : ∀ k, cancelled k = true → cancelled (k + 1) = true
  /-- the answer of the source to the `k`-th request, for the given offset -/
  extract : ℕ → ℕ → Except NetworkError MigrationBatch
  /-- the answer of the target to the `k`-th batch sent to it -/
  receive : ℕ → MigrationBatch → Except NetworkError MigrationResponse
  sourceState : Except NetworkError ShardState
  targetState : Except NetworkError ShardState

structure CopyStats where
  batches : ℕ
  nodes : ℕ
  edges : ℕ
  bytes : ℕ

/-- Where the surroundings stand: how often the flag was read (and a batch asked for), the offset to ask
for, and how many batches were sent. -/
structure Position where
  iterations : ℕ
  offset : ℕ
  sent : ℕ

/-- The variables of `copy_data`, and what the clients have served and accepted. -/
structure Copying where
  position : Position
  batchNumber : ℕ
  stats : CopyStats
  progress : MigrationProgress
  batchesTransferred : ℕ
  bytesTransferred : ℕ
  served : List MigrationBatch
  accepted : List MigrationBatch

def Copying.count (c : Copying) (batch : MigrationBatch) (response : MigrationResponse) : Copying :=
  let bytes := estimateBatchSize batch
  { c with
    stats := ⟨add64 c.stats.batches 1, add64 c.stats.nodes response.nodesWritten,
      add64 c.stats.edges response.edgesWritten, add64 c.stats.bytes bytes⟩
    progress := c.progress.update response.nodesWritten response.edgesWritten bytes
    batchesTransferred := add64 c.batchesTransferred 1
    bytesTransferred := add64 c.bytesTransferred bytes
    accepted := c.accepted ++ [batch] }

def Copying.serve (c : Copying) (batch : MigrationBatch) : Copying :=
  { c with
    position := { c.position with iterations := c.position.iterations + 1 }
    served := c.served ++ [batch] }

def Copying.send (c : Copying) : Copying :=
  { c with position := { c.position with sent := c.position.sent + 1 } }

def Copying.next (c : Copying) (batchSize : ℕ) : Copying :=
  { c with
    position := { c.position with offset := add64 c.position.offset batchSize }
    batchNumber := add64 c.batchNumber 1 }

section

variable (config : MigrationConfig) (behaviour : Behaviour)

/-- The inner loop: send the batch again while the client fails and retries are left. -/
def transfer (batch : MigrationBatch) (retries : ℕ) (c : Copying) :
    Copying × Except MigrationError Unit :=
  match behaviour.receive c.position.sent batch with
  | .ok response =>
    if response.accepted then (c.send.count batch response, .ok ())
    else (c.send, .error (.batchRejected c.batchNumber (response.error.getD "Unknown")))
  | .error e =>
    match retries with
    | 0 => (c.send, .error (.networkError e))
    | retries + 1 => transfer batch retries c.send

/-- One round of the copy loop; the result is there when the loop ends. -/
def copyRound (planId : ℕ) (c : Copying) : Copying × Option (Except MigrationError Unit) :=
  if behaviour.cancelled c.position.iterations then (c, some (.error (.cancelled planId)))
  else
    match behaviour.extract c.position.iterations c.position.offset with
    | .error e => (c, some (.error (.networkError e)))
    | .ok batch =>
      if batch.Empty then
        -- an empty batch that is not the last one leaves the offset as it is
        if batch.isLast then (c.serve batch, some (.ok ())) else (c.serve batch, none)
      else
        match transfer behaviour batch config.batchRetries (c.serve batch) with
        | (c, .error e) => (c, some (.error e))
        | (c, .ok ()) =>
          if batch.isLast then (c, some (.ok ())) else (c.next config.batchSize, none)

/-- The loop of `copy_data`. -/
def copyLoop (planId : ℕ) : ℕ → Copying → Option (Copying × Except MigrationError Unit)
  | 0, _ => none
  | fuel + 1, c =>
    match copyRound config behaviour planId c with
    | (c, some result) => some (c, result)
    | (c, none) => copyLoop planId fuel c

end

/-! ### The executor -/

structure Executor where
  config : MigrationConfig
  clients : List ShardId
  router : DualWriteRouter
  /-- ids with a cancellation flag -/
  flags : List ℕ
  batchesTransferred : ℕ
  bytesTransferred : ℕ

structure MigrationStats where
  migrationId : ℕ
  batchesTransferred : ℕ
  nodesTransferred : ℕ
  edgesTransferred : ℕ
  bytesTransferred : ℕ
  verificationPassed : Bool

/-- What a call of `execute` leaves behind. -/
structure Outcome where
  executor : Executor
  plan : MigrationPlan
  served : List MigrationBatch
  accepted : List MigrationBatch
  result : Except MigrationError MigrationStats

def verifyMigration (behaviour : Behaviour) (plan : MigrationPlan) : Except MigrationError Unit :=
  match behaviour.sourceState with
  | .error e => .error (.networkError e)
  | .ok _ =>
    match behaviour.targetState with
    | .error e => .error (.networkError e)
    | .ok target =>
      if target.nodeCount = 0 ∧ plan.progress.totalNodes > 0 then
        .error (.verificationFailed plan.id "Target shard has no nodes after migration")
      else .ok ()

namespace Executor

def registerFlag (x : Executor) (id : ℕ) : Executor :=
  { x with flags := id :: x.flags.filter (· ≠ id) }

def startDualWrite (x : Executor) (plan : MigrationPlan) : Executor :=
  { x with
    router := x.router.registerMigration plan.labelsToMigrate plan.sourceShard plan.targetShard }

/-- `cutover` and `cleanup_cancelled` on the router. -/
def unregister (x : Executor) (plan : MigrationPlan) : Executor :=
  { x with router := x.router.unregisterMigration plan.labelsToMigrate }

def copied (x : Executor) (c : Copying) : Executor :=
  { x with batchesTransferred := c.batchesTransferred, bytesTransferred := c.bytesTransferred }

def startCopying (x : Executor) (plan : MigrationPlan) : Copying :=
  ⟨⟨0, 0, 0⟩, 0, ⟨0, 0, 0, 0⟩, plan.progress, x.batchesTransferred, x.bytesTransferred, [], []⟩

/-- `execute` after the copy loop has ended. -/
def afterCopy (behaviour : Behaviour) (x : Executor) (plan : MigrationPlan) (c : Copying)
    (copied : Except MigrationError Unit) : Outcome :=
  let x := x.copied c
  let plan := { plan with state := .copying, progress := c.progress }
  let outcome := fun x plan result => (⟨x, plan, c.served, c.accepted, result⟩ : Outcome)
  match copied with
  | .error e => outcome x plan (.error e)
  | .ok () =>
    if behaviour.cancelled c.position.iterations then
      outcome (x.unregister plan) { plan with state := .cancelled } (.error (.cancelled plan.id))
    else
      let plan := { plan with state := .verifying }
      match verifyMigration behaviour plan with
      | .error e => outcome x plan (.error e)
      | .ok () =>
        let x := x.unregister plan
        outcome { x with flags := x.flags.filter (· ≠ plan.id) } { plan with state := .completed }
          (.ok ⟨plan.id, c.stats.batches, c.stats.nodes, c.stats.edges, c.stats.bytes, true⟩)

/-- `MigrationExecutor::execute`, with fuel for the copy loop. -/
def execute (fuel : ℕ) (behaviour : Behaviour) (x : Executor) (plan : MigrationPlan) : Option Outcome :=
  let x := x.registerFlag plan.id
  if plan.sourceShard ∉ x.clients then
    some ⟨x, plan, [], [], .error (.sourceUnavailable plan.sourceShard)⟩
  else if plan.targetShard ∉ x.clients then
    some ⟨x, plan, [], [], .error (.targetUnavailable plan.targetShard)⟩
  else
    let x := x.startDualWrite plan
    match copyLoop x.config behaviour plan.id fuel (x.startCopying plan) with
    | none => none
    | some (c, copied) => some (afterCopy behaviour x plan c copied)

end Executor

end Aletheia.ShardMigration
