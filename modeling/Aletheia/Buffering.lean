import Aletheia.Database

/-!
# Buffering a write

The methods of `WriteTransaction` that put writes into the buffer. Each is one definition for nodes
and edges. They read the buffer before current storage, so a write after a buffered delete or
retraction of the same entity is refused, and they draw ids that are lost when a later check fails.
-/

namespace Aletheia

open Exec

/-- One year, in microseconds. -/
def maxValidTimeFutureOffsetUs : ℤ := 365 * 24 * 60 * 60 * 1000000

def validateValidFromFuture (validFrom now : Timestamp) : Except TransactionError Unit :=
  if maxValidTimeFutureOffsetUs < validFrom.wallclock - now.wallclock then
    .error (.validTimeTooFarInFuture validFrom now)
  else .ok ()

def validateValidFromNotBeforeCreation (creation validFrom : Timestamp) :
    Except TransactionError Unit :=
  if validFrom < creation then .error (.validTimeBeforeEntityCreation validFrom creation)
  else .ok ()

/-- `DEFAULT_MAX_OPERATIONS`. -/
def maxOperations : ℕ := 50000

namespace WriteTransaction

variable {K X : Type} [DecidableEq K] [Stored K X]

/-- `WriteBuffer::add`. -/
def add (tx : WriteTransaction) (w : EntityWrite K X) : Except TransactionError WriteTransaction :=
  if maxOperations ≤ tx.buffer.length then
    .error (.capacityExceeded tx.buffer.length maxOperations)
  else .ok { tx with buffer := tx.buffer ++ [Stored.wrap w] }

/-- `version_id_gen.next()`. -/
def drawVersionId : EStateM TransactionError Db VersionId := do
  let db ← get
  set { db with versionIdGen := db.versionIdGen + 1 }
  return .new db.versionIdGen

/-- The entity as the transaction sees it, or the not-found error. -/
def requireOwn (tx : WriteTransaction) (k : K) : EStateM TransactionError Db (Entity X) :=
  Exec.readE fun db =>
    match tx.readOwn db k with
    | some x => .ok x
    | none => .error (.storage (EntityKind.notFound X k))

/-- The valid-time checks of updates and deletes. -/
def validateValidFrom (X : Type) [Stored K X] (k : K) (validFrom : ValidTimestamp)
    (now : Timestamp) : EStateM TransactionError Db Unit :=
  Exec.readE fun db => do
    validateValidFromFuture validFrom now
    match (Stored.store (K := K) (X := X) db).history.creationTime k with
    | some creation => validateValidFromNotBeforeCreation creation validFrom
    | none => .ok ()

/-- `create_node_with_options` / `create_edge_with_options`. -/
def create (tx : WriteTransaction) (content : Content X) (validFrom : Option ValidTimestamp)
    (now : Timestamp) : EStateM TransactionError Db (K × WriteTransaction) := do
  let (k, db) := Stored.nextId (K := K) (X := X) (← get)
  set db
  let vid ← drawVersionId
  let vf := validFrom.getD tx.startTimestamp
  Exec.readE fun _ => validateValidFromFuture vf now
  let tx ← Exec.readE fun _ => tx.add (.create k vid vf content)
  return (k, tx)

/-- The common part of updates, replacements and compare-and-sets: `content` says what the new
version holds, given the entity as the transaction sees it. -/
def bufferUpdate (tx : WriteTransaction) (k : K) (content : Entity X → Content X)
    (validFrom : Option ValidTimestamp) (now : Timestamp) :
    EStateM TransactionError Db WriteTransaction := do
  let x ← tx.requireOwn k
  let vid ← drawVersionId
  let vf := validFrom.getD tx.startTimestamp
  validateValidFrom X k vf now
  Exec.readE fun _ => tx.add (.update k vid vf (content x))

/-- The entries of `patch` go over those of `properties`. -/
def mergeProperties (properties patch : PropertyMap) : PropertyMap :=
  patch.entries.foldl (fun m e => m.insert e.1 e.2) properties

/-- `update_node_with_options` / `update_edge_with_options`: the given properties are merged in. -/
def update (tx : WriteTransaction) (k : K) (properties : PropertyMap)
    (provenance : Option Provenance) (validFrom : Option ValidTimestamp) (now : Timestamp) :
    EStateM TransactionError Db WriteTransaction :=
  tx.bufferUpdate k (fun x : Entity X =>
    ⟨x.label, mergeProperties x.properties properties, x.ends, provenance⟩) validFrom now

/-- `replace_node_with_options` / `replace_edge_with_options`: the given properties are the new
ones; only a node gets a new label. -/
def replace (tx : WriteTransaction) (k : K) (label : Option InternedString)
    (properties : PropertyMap) (provenance : Option Provenance)
    (validFrom : Option ValidTimestamp) (now : Timestamp) :
    EStateM TransactionError Db WriteTransaction :=
  tx.bufferUpdate k (fun x : Entity X =>
    ⟨label.getD x.label, properties, x.ends, provenance⟩) validFrom now

/-- `cas_node_impl` / `cas_edge_impl`: a replacement with a precondition that is checked at
commit. -/
def compareAndSet (tx : WriteTransaction) (k : K) (expected : VersionId) (properties : PropertyMap)
    (lease : Option InternedString) (fence : Option (InternedString × ℤ))
    (provenance : Option Provenance) (validFrom : Option ValidTimestamp) (now : Timestamp) :
    EStateM TransactionError Db WriteTransaction := do
  let own ← Exec.readE fun db => .ok (tx.readOwn (X := X) db k).isSome
  if own then
    let tx ← tx.bufferUpdate k (fun x : Entity X => ⟨x.label, properties, x.ends, provenance⟩)
      validFrom now
    return { tx with
      casPreconditions := tx.casPreconditions ++ [⟨Stored.ref X k, expected, lease, fence⟩] }
  else throw (.casMismatch expected none)

/-- `delete_node_with_options` / `delete_edge_with_options`. -/
def delete (X : Type) [Stored K X] (tx : WriteTransaction) (k : K)
    (provenance : Option Provenance) (validFrom : Option ValidTimestamp) (now : Timestamp) :
    EStateM TransactionError Db WriteTransaction := do
  let _ ← tx.requireOwn (X := X) k
  let vf := validFrom.getD tx.startTimestamp
  validateValidFrom X k vf now
  Exec.readE fun _ => tx.add (.delete (X := X) k vf provenance)

/-- `head_node_valid_from` / `head_edge_valid_from`. -/
def headValidFrom (X : Type) [Stored K X] (tx : WriteTransaction) (db : Db) (k : K) : Timestamp :=
  let h := (Stored.store (K := K) (X := X) db).history
  (((h.heads k).bind h.getVersion).map (·.temporal.validTime.start)).getD tx.startTimestamp

/-- `closed_node_valid_interval` / `closed_edge_valid_interval`. -/
def closedValidInterval (X : Type) [Stored K X] (db : Db) (k : K) : Option TimeRange :=
  let h := (Stored.store (K := K) (X := X) db).history
  (((h.heads k).bind h.getVersion).map (·.temporal.validTime)).filter fun r => !r.isCurrent

/-- `retract_node_with_provenance` / `retract_edge_with_provenance`. A retraction of an entity that
is already closed, in the buffer or in the history, is accepted and buffers nothing. -/
def retract (X : Type) [Stored K X] (tx : WriteTransaction) (k : K) (validTo : ValidTimestamp)
    (provenance : Option Provenance) (now : Timestamp) :
    EStateM TransactionError Db WriteTransaction :=
  Exec.readE fun db =>
    match tx.getWrite X k with
    | some (.delete _ _ _) | some (.retract _ _ _) => .ok tx
    | _ =>
      match tx.readOwn (X := X) db k with
      | some _ => do
        validateValidFromFuture validTo now
        validateValidFromNotBeforeCreation (tx.headValidFrom X db k) validTo
        tx.add (.retract (X := X) k validTo provenance)
      | none =>
        match closedValidInterval X db k with
        | some _ => .ok tx
        | none => .error (.storage (EntityKind.notFound X k))

end WriteTransaction

/-! ### Requests -/

/-- A call of one of the methods above, for one kind of entity. -/
inductive EntityRequest (K X : Type) where
  | create (content : Content X) (validFrom : Option ValidTimestamp)
  | update (k : K) (properties : PropertyMap) (provenance : Option Provenance)
      (validFrom : Option ValidTimestamp)
  | replace (k : K) (label : Option InternedString) (properties : PropertyMap)
      (provenance : Option Provenance) (validFrom : Option ValidTimestamp)
  | compareAndSet (k : K) (expected : VersionId) (properties : PropertyMap)
      (lease : Option InternedString) (fence : Option (InternedString × ℤ))
      (provenance : Option Provenance) (validFrom : Option ValidTimestamp)
  | delete (k : K) (provenance : Option Provenance) (validFrom : Option ValidTimestamp)
  | retract (k : K) (validTo : ValidTimestamp) (provenance : Option Provenance)

def EntityRequest.exec {K X : Type} [DecidableEq K] [Stored K X] (tx : WriteTransaction)
    (now : Timestamp) : EntityRequest K X → EStateM TransactionError Db WriteTransaction
  | .create content vf => do
    let (_, tx) ← tx.create (K := K) content vf now
    return tx
  | .update k properties prov vf => tx.update (X := X) k properties prov vf now
  | .replace k label properties prov vf => tx.replace (X := X) k label properties prov vf now
  | .compareAndSet k expected properties lease fence prov vf =>
    tx.compareAndSet (X := X) k expected properties lease fence prov vf now
  | .delete k prov vf => tx.delete X k prov vf now
  | .retract k vt prov => tx.retract X k vt prov now

inductive Request where
  | node (r : EntityRequest NodeId Unit)
  | edge (r : EntityRequest EdgeId Endpoints)

def Request.exec (tx : WriteTransaction) (now : Timestamp) :
    Request → EStateM TransactionError Db WriteTransaction
  | .node r => r.exec tx now
  | .edge r => r.exec tx now

/-! ### The stores while a transaction buffers -/

/-- The stores of both kinds, without the id generators. -/
def Db.stores (db : Db) : (CurrentStorage NodeId Unit × CurrentStorage EdgeId Endpoints) ×
    (HistoricalStorage NodeId Unit × HistoricalStorage EdgeId Endpoints) :=
  ((db.nodes, db.edges), (db.nodeHistory, db.edgeHistory))

/-- Drawing an entity id changes a generator only. -/
class LawfulIds (K X : Type) [Stored K X] : Prop where
  stores_nextId : ∀ db : Db, (Stored.nextId (K := K) (X := X) db).2.stores = db.stores

instance : LawfulIds NodeId Unit := ⟨fun _ => rfl⟩
instance : LawfulIds EdgeId Endpoints := ⟨fun _ => rfl⟩

namespace WriteTransaction

variable {K X : Type} [DecidableEq K] [Stored K X] {tx : WriteTransaction} {now : Timestamp}
  {validFrom : Option ValidTimestamp}

lemma keeps_drawVersionId : Exec.Keeps Db.stores drawVersionId := fun _ => rfl

lemma keeps_bufferUpdate {k : K} {content : Entity X → Content X} :
    Exec.Keeps Db.stores (tx.bufferUpdate k content validFrom now) := by
  refine keeps_readE.bind fun x => ?_
  refine keeps_drawVersionId.bind fun vid => ?_
  exact keeps_readE.bind fun _ => keeps_readE

omit [DecidableEq K] in
lemma keeps_create [LawfulIds K X] {content : Content X} :
    Exec.Keeps Db.stores (tx.create (K := K) content validFrom now) := by
  intro db
  have hrest : Exec.Keeps Db.stores (do
      let vid ← drawVersionId
      readE fun _ => validateValidFromFuture (validFrom.getD tx.startTimestamp) now
      let tx ← readE fun _ => tx.add
        (.create (Stored.nextId (K := K) (X := X) db).1 vid (validFrom.getD tx.startTimestamp)
          content)
      return ((Stored.nextId (K := K) (X := X) db).1, tx)) :=
    keeps_drawVersionId.bind fun _ => keeps_readE.bind fun _ =>
      keeps_readE.bind fun _ => keeps_pure
  exact (hrest _).trans (LawfulIds.stores_nextId db)

end WriteTransaction

/-- **Buffering leaves the stores alone**, whether or not the call is accepted. -/
theorem EntityRequest.keeps_exec {K X : Type} [DecidableEq K] [Stored K X] [LawfulIds K X]
    (tx : WriteTransaction) (now : Timestamp) (r : EntityRequest K X) :
    Exec.Keeps Db.stores (r.exec tx now) := by
  cases r with
  | create content vf => exact WriteTransaction.keeps_create.bind fun _ => keeps_pure
  | update | replace => exact WriteTransaction.keeps_bufferUpdate
  | compareAndSet k =>
    refine keeps_readE.bind fun own => ?_
    split
    · exact WriteTransaction.keeps_bufferUpdate.bind fun _ => keeps_pure
    · exact fun _ => rfl
  | delete => exact keeps_readE.bind fun _ => keeps_readE.bind fun _ => keeps_readE
  | retract => exact keeps_readE

lemma Request.keeps_exec (tx : WriteTransaction) (now : Timestamp) (r : Request) :
    Exec.Keeps Db.stores (r.exec tx now) := by
  cases r with
  | node r => exact r.keeps_exec tx now
  | edge r => exact r.keeps_exec tx now

end Aletheia
