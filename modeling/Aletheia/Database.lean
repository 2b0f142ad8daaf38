import Aletheia.Apply

/-!
# The database and the writes it buffers

The current storage and the history of nodes and of edges, with the id generators. A write
transaction collects `BufferedWrite`s; its methods read its own buffer first and current storage
second, and check valid times against the history, all before commit.
-/

namespace Aletheia

structure Db where
  nodes : CurrentStorage NodeId Unit
  edges : CurrentStorage EdgeId Endpoints
  nodeHistory : HistoricalStorage NodeId Unit
  edgeHistory : HistoricalStorage EdgeId Endpoints
  versionIdGen : ℕ
  nodeIdGen : ℕ
  edgeIdGen : ℕ

def Db.init (maxVersions : ℕ) (indexLimit : Option ℕ) (vectorIndexes : List VectorIndex) : Db where
  nodes := .empty vectorIndexes
  edges := .empty []
  nodeHistory := .empty maxVersions (indexLimit.map fun n => ⟨fun _ => [], n⟩)
  edgeHistory := .empty maxVersions (indexLimit.map fun n => ⟨fun _ => [], n⟩)
  versionIdGen := 0
  nodeIdGen := 0
  edgeIdGen := 0

/-- A buffered write of one kind of entity; creates and updates have drawn their version id. -/
inductive EntityWrite (K X : Type) where
  | create (k : K) (versionId : VersionId) (validFrom : ValidTimestamp) (content : Content X)
  | update (k : K) (versionId : VersionId) (validFrom : ValidTimestamp) (content : Content X)
  | delete (k : K) (validFrom : ValidTimestamp) (provenance : Option Provenance)
  | retract (k : K) (validTo : ValidTimestamp) (provenance : Option Provenance)

namespace EntityWrite

variable {K X : Type}

def key : EntityWrite K X → K
  | .create k _ _ _ | .update k _ _ _ | .delete k _ _ | .retract k _ _ => k

/-- Deletes and retractions close the entity and get their version id at commit. -/
def isClosing : EntityWrite K X → Bool
  | .create _ _ _ _ | .update _ _ _ _ => false
  | .delete _ _ _ | .retract _ _ _ => true

def isCreate : EntityWrite K X → Bool
  | .create _ _ _ _ => true
  | _ => false

end EntityWrite

/-- `CreateNode`, `UpdateNode`, `DeleteNode` and `RetractNode`, and the same for edges. -/
inductive BufferedWrite where
  | node (w : EntityWrite NodeId Unit)
  | edge (w : EntityWrite EdgeId Endpoints)

def BufferedWrite.ref : BufferedWrite → EntityRef
  | .node w => .node w.key
  | .edge w => .edge w.key

def BufferedWrite.isClosing : BufferedWrite → Bool
  | .node w => w.isClosing
  | .edge w => w.isClosing

/-- What the transaction code needs of a kind of entity: its stores, its id generator and its
variants of `BufferedWrite`. -/
class Stored (K X : Type) extends EntityKind K X where
  ref : K → EntityRef
  store : Db → EntityStore K X
  setStore : Db → EntityStore K X → Db
  nextId : Db → K × Db
  wrap : EntityWrite K X → BufferedWrite
  unwrap : BufferedWrite → Option (EntityWrite K X)

instance : Stored NodeId Unit where
  ref := .node
  store db := ⟨db.nodes, db.nodeHistory, db.versionIdGen⟩
  setStore db s :=
    { db with nodes := s.current, nodeHistory := s.history, versionIdGen := s.versionIdGen }
  nextId db := (⟨db.nodeIdGen⟩, { db with nodeIdGen := db.nodeIdGen + 1 })
  wrap := .node
  unwrap
    | .node w => some w
    | .edge _ => none

instance : Stored EdgeId Endpoints where
  ref := .edge
  store db := ⟨db.edges, db.edgeHistory, db.versionIdGen⟩
  setStore db s :=
    { db with edges := s.current, edgeHistory := s.history, versionIdGen := s.versionIdGen }
  nextId db := (⟨db.edgeIdGen⟩, { db with edgeIdGen := db.edgeIdGen + 1 })
  wrap := .edge
  unwrap
    | .edge w => some w
    | .node _ => none

/-- The version the entity must still have, unless its lease has expired, and the fence that must
be above the stored one. -/
structure CasPrecondition where
  target : EntityRef
  expectedVersion : VersionId
  lease : Option InternedString
  fence : Option (InternedString × ℤ)

inductive ConflictReason where
  | committedAfter (commit snapshot : Timestamp)
  | deleted
deriving DecidableEq, Repr

inductive ValidationReason where
  | sourceMissing (source : NodeId)
  | targetMissing (target : NodeId)
  | orphanedEdge (node : NodeId) (edge : EdgeId) (commit snapshot : Timestamp)
  | danglingEndpoint (edge : EdgeId) (endpoint : NodeId)
deriving DecidableEq, Repr

inductive TransactionError where
  | validTimeTooFarInFuture (validFrom now : Timestamp)
  | validTimeBeforeEntityCreation (validFrom creation : Timestamp)
  | capacityExceeded (current limit : ℕ)
  | serializationFailure (entity : EntityRef) (reason : ConflictReason)
  | validationFailed (reason : ValidationReason)
  | casMismatch (expected : VersionId) (actual : Option VersionId)
  | fenceTooLow (fenceKey : InternedString) (newFence stored : ℤ)
  | storage (e : StorageError)
deriving DecidableEq, Repr

structure WriteTransaction where
  txId : TxId
  snapshotTimestamp : Timestamp
  startTimestamp : ValidTimestamp
  buffer : List BufferedWrite
  casPreconditions : List CasPrecondition

namespace WriteTransaction

variable {K X : Type} [DecidableEq K] [Stored K X]

def writes (K X : Type) [Stored K X] (tx : WriteTransaction) : List (EntityWrite K X) :=
  tx.buffer.filterMap Stored.unwrap

/-- `get_node_write` / `get_edge_write`: the latest buffered write of `k`. -/
def getWrite (X : Type) [Stored K X] (tx : WriteTransaction) (k : K) : Option (EntityWrite K X) :=
  (tx.writes K X).reverse.find? fun w => w.key = k

/-- `buffered_node` / `buffered_edge`: what the buffer says of `k`, if it says anything. -/
def bufferedEntity (tx : WriteTransaction) (k : K) : Option (Option (Entity X)) :=
  (tx.getWrite X k).map fun
    | .create _ vid _ content | .update _ vid _ content =>
      some (EntityStore.pendingEntity tx.txId vid content.label content.properties content.ends)
    | .delete _ _ _ | .retract _ _ _ => none

/-- `read_own_node` / `read_own_edge`. -/
def readOwn (tx : WriteTransaction) (db : Db) (k : K) : Option (Entity X) :=
  (tx.bufferedEntity k).getD ((Stored.store db).current.get k)

end WriteTransaction

end Aletheia
