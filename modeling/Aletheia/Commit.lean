import Aletheia.Database

/-!
# The steps of a commit

`commit_with_timestamp_inner` in its parts: `validate`, `detect_conflicts`, the closing version ids,
the write-skew and compare-and-set guards, `apply_changes` and
`finalize_current_commit_timestamps`. Only the last two change the stores; `apply_changes` stops at
the first write that fails and keeps what the earlier ones did.
-/

namespace Aletheia

namespace Db

def metadata (db : Db) : EntityRef → Option VersionMetadata
  | .node id => (db.nodes.get id).map (·.metadata)
  | .edge id => (db.edges.get id).map (·.metadata)

def currentVersion (db : Db) : EntityRef → Option VersionId
  | .node id => (db.nodes.get id).map (·.currentVersion)
  | .edge id => (db.edges.get id).map (·.currentVersion)

/-- `get_outgoing_edges` and `get_incoming_edges`, each edge once. -/
def connectedEdges (db : Db) (n : NodeId) : List EdgeId :=
  (db.edges.outgoing n ++ db.edges.incoming n).dedup.mergeSort fun a b => a.val ≤ b.val

end Db

namespace WriteTransaction

/-! ### Before the commit clock -/

/-- A node that the buffer leaves in place, or that current storage has. -/
def nodeExists (tx : WriteTransaction) (db : Db) (n : NodeId) : Bool :=
  match tx.getWrite Unit n with
  | some w => !w.isClosing
  | none => (db.nodes.get n).isSome

/-- The edge is deleted or retracted later in the same transaction. -/
def closesEdge (tx : WriteTransaction) (e : EdgeId) : Bool :=
  (tx.getWrite Endpoints e).any (·.isClosing)

def validate (tx : WriteTransaction) (db : Db) : Except TransactionError Unit :=
  tx.buffer.forM fun
    | .edge (.create e _ _ content) | .edge (.update e _ _ content) =>
      if tx.closesEdge e then .ok ()
      else if tx.nodeExists db content.ends.source = false then
        .error (.validationFailed (.sourceMissing content.ends.source))
      else if tx.nodeExists db content.ends.target = false then
        .error (.validationFailed (.targetMissing content.ends.target))
      else .ok ()
    | _ => .ok ()

def creates (tx : WriteTransaction) (r : EntityRef) : Bool :=
  tx.buffer.any fun
    | .node w => w.isCreate && r = .node w.key
    | .edge w => w.isCreate && r = .edge w.key

def isCasTarget (tx : WriteTransaction) (r : EntityRef) : Bool :=
  tx.casPreconditions.any fun p => p.target = r

/-- The committed entry must not be newer than the snapshot; one without a commit timestamp
passes. -/
def checkSnapshot (tx : WriteTransaction) (r : EntityRef) (m : VersionMetadata) :
    Except TransactionError Unit :=
  match m.commitTimestamp with
  | some commit =>
    if tx.snapshotTimestamp < commit then
      .error (.serializationFailure r (.committedAfter commit tx.snapshotTimestamp))
    else .ok ()
  | none => .ok ()

/-- An update or a retraction needs the entity. -/
def checkPresent (tx : WriteTransaction) (db : Db) (r : EntityRef) :
    Except TransactionError Unit :=
  match db.metadata r with
  | some m => tx.checkSnapshot r m
  | none => .error (.serializationFailure r .deleted)

/-- A delete passes when the entity is gone. -/
def checkDelete (tx : WriteTransaction) (db : Db) (r : EntityRef) : Except TransactionError Unit :=
  match db.metadata r with
  | some m => tx.checkSnapshot r m
  | none => .ok ()

/-- The arms of `detect_conflicts`. Only updates are exempt for compare-and-set targets. -/
def detectWrite {K X : Type} [Stored K X] (tx : WriteTransaction) (db : Db) :
    EntityWrite K X → Except TransactionError Unit
  | .create _ _ _ _ => .ok ()
  | .update k _ _ _ =>
    if tx.creates (Stored.ref X k) || tx.isCasTarget (Stored.ref X k) then .ok ()
    else tx.checkPresent db (Stored.ref X k)
  | .delete k _ _ =>
    if tx.creates (Stored.ref X k) then .ok () else tx.checkDelete db (Stored.ref X k)
  | .retract k _ _ =>
    if tx.creates (Stored.ref X k) then .ok () else tx.checkPresent db (Stored.ref X k)

/-- The fast path for preconditions without a lease. -/
def checkPureCas (db : Db) (p : CasPrecondition) : Except TransactionError Unit :=
  if p.lease.isSome ∨ db.currentVersion p.target = some p.expectedVersion then .ok ()
  else .error (.casMismatch p.expectedVersion (db.currentVersion p.target))

def detectConflicts (tx : WriteTransaction) (db : Db) : Except TransactionError Unit := do
  tx.casPreconditions.forM (checkPureCas db)
  tx.buffer.forM fun
    | .node w => tx.detectWrite db w
    | .edge w => tx.detectWrite db w

/-- `pregenerate_closing_version_ids`: one id for each delete and retraction. -/
def pregenerateClosingVersionIds (tx : WriteTransaction) (db : Db) : List VersionId × Db :=
  let n := tx.buffer.countP (·.isClosing)
  ((List.range n).map fun i => .new (db.versionIdGen + i),
    { db with versionIdGen := db.versionIdGen + n })

/-! ### Under the commit clock, before the log -/

/-- `detect_delete_orphan_write_skew`. -/
def detectDeleteOrphan (tx : WriteTransaction) (db : Db) : Except TransactionError Unit :=
  tx.buffer.forM fun
    | .node (.delete n _ _) | .node (.retract n _ _) =>
      (db.connectedEdges n).forM fun e =>
        if tx.buffer.any fun w => w.isClosing && w.ref = .edge e then .ok ()
        else
          match (db.edges.get e).bind (·.metadata.commitTimestamp) with
          | some commit =>
            if tx.snapshotTimestamp < commit then
              .error (.validationFailed (.orphanedEdge n e commit tx.snapshotTimestamp))
            else .ok ()
          | none => .ok ()
    | _ => .ok ()

/-- `detect_create_edge_dangling_endpoint`. -/
def detectDanglingEndpoint (tx : WriteTransaction) (db : Db) : Except TransactionError Unit :=
  tx.buffer.forM fun
    | .edge (.create e _ _ content) =>
      if tx.closesEdge e then .ok ()
      else [content.ends.source, content.ends.target].forM fun n =>
        if tx.nodeExists db n then .ok () else .error (.validationFailed (.danglingEndpoint e n))
    | _ => .ok ()

def PropertyValue.asInt : PropertyValue → Option ℤ
  | .int i => some i
  | _ => none

def intProperty (db : Db) (r : EntityRef) (key : InternedString) : Option ℤ :=
  match r with
  | .node id => ((db.nodes.get id).bind fun x => x.properties.lookup key).bind PropertyValue.asInt
  | .edge _ => none

/-- `node_lease_expired`: a missing lease counts as expired, a missing node does not. -/
def leaseExpired (db : Db) (r : EntityRef) (key : InternedString) (commit : Timestamp) : Bool :=
  match r with
  | .node id => (db.nodes.get id).isSome && (intProperty db r key).all (· ≤ commit.wallclock)
  | .edge _ => false

/-- `i64::MIN`, the fence of a node that has none. -/
def noFence : ℤ := -2 ^ 63

/-- One round of `detect_cas_precondition_violations`. -/
def checkCas (db : Db) (commit : Timestamp) (p : CasPrecondition) : Except TransactionError Unit :=
  if db.currentVersion p.target = some p.expectedVersion ∨
      p.lease.any (leaseExpired db p.target · commit) then
    match p.fence with
    | some (key, newFence) =>
      let stored := (intProperty db p.target key).getD noFence
      if stored < newFence then .ok () else .error (.fenceTooLow key newFence stored)
    | none => .ok ()
  else .error (.casMismatch p.expectedVersion (db.currentVersion p.target))

/-- The three guards, in the order of the source. -/
def guards (tx : WriteTransaction) (db : Db) (commit : Timestamp) : Except TransactionError Unit := do
  tx.detectDeleteOrphan db
  tx.detectDanglingEndpoint db
  tx.casPreconditions.forM (checkCas db commit)

end WriteTransaction

/-! ### Applying -/

namespace Db

def onStore {K X α : Type} [Stored K X] (x : EStateM StorageError (EntityStore K X) α) :
    EStateM StorageError Db α :=
  Exec.zoom Stored.store Stored.setStore x

/-- `apply_single_write` for one kind; closing writes take the next of the given ids. -/
def applyWrite {K X : Type} [DecidableEq K] [Stored K X] (txId : TxId) (commit : Timestamp) :
    EntityWrite K X → List VersionId → EStateM StorageError Db (List VersionId)
  | .create k vid vf content, ids => do
    onStore (EntityStore.applyCreate txId k vid content vf commit)
    return ids
  | .update k vid vf content, ids => do
    onStore (EntityStore.applyUpdate txId k vid content vf commit)
    return ids
  | .delete k vf prov, id :: ids => do
    onStore (EntityStore.applyDelete (X := X) k vf commit id prov)
    return ids
  | .retract k vt prov, id :: ids => do
    onStore (EntityStore.applyRetract (X := X) k vt commit id prov)
    return ids
  | .delete _ _ _, [] | .retract _ _ _, [] =>
    throw (.inconsistentState "Version ID exhaustion: expected closing versions, iterator depleted")

def applySingleWrite (txId : TxId) (commit : Timestamp) :
    BufferedWrite → List VersionId → EStateM StorageError Db (List VersionId)
  | .node w, ids => applyWrite txId commit w ids
  | .edge w, ids => applyWrite txId commit w ids

/-- The loop of `apply_changes`. -/
def applyChanges (txId : TxId) (commit : Timestamp) :
    List BufferedWrite → List VersionId → EStateM StorageError Db Unit
  | [], _ => pure ()
  | w :: ws, ids => do
    let ids ← applySingleWrite txId commit w ids
    applyChanges txId commit ws ids

/-- One round of `finalize_current_commit_timestamps`. -/
def finalizeWrite (commit : Timestamp) (db : Db) : BufferedWrite → Db
  | .node (.create k _ _ _) | .node (.update k _ _ _) =>
    { db with nodes := db.nodes.setCommitTimestamp k commit }
  | .edge (.create k _ _ _) | .edge (.update k _ _ _) =>
    { db with edges := db.edges.setCommitTimestamp k commit }
  | _ => db

def finalize (commit : Timestamp) (ws : List BufferedWrite) (db : Db) : Db :=
  ws.foldl (finalizeWrite commit) db

end Db

end Aletheia
