import Aletheia.Bfs
import Aletheia.Database

/-!
# Graph traversal in the query executor

`TraversalIterator` searches breadth-first from each start node. The neighbours come from the
adjacency lists of current storage; under a temporal context an edge counts only if it has a version
at the coordinate, and a node is emitted as it was there.
-/

namespace Aletheia.Query

/-! ### Rows -/

/-- `Node` as a read returns it. -/
structure Node where
  id : NodeId
  label : InternedString
  properties : PropertyMap
  currentVersion : VersionId

/-- `Edge` as a read returns it. -/
structure Edge where
  id : EdgeId
  label : InternedString
  ends : Endpoints
  properties : PropertyMap
  currentVersion : VersionId

inductive EntityResult where
  | node (n : Node)
  | edge (e : Edge)
  | nodeId (n : NodeId)
  | edgeId (e : EdgeId)
  | null

def EntityResult.nodeId? : EntityResult → Option NodeId
  | .node n => some n.id
  | .nodeId n => some n
  | _ => none

structure QueryRow where
  entity : EntityResult
  score : Option (BitVec 32)
  path : Option (List EntityRef)
  timestamp : Option Timestamp
  columns : Option (List (String × PropertyValue))
  edge : Option Edge

def QueryRow.withPath (entity : EntityResult) (path : List EntityRef) : QueryRow :=
  ⟨entity, none, some path, none, none, none⟩

/-! ### Reads of one entity -/

/-- `CurrentStorage::get_node`. -/
def getNode (db : Db) (n : NodeId) : Except StorageError Node :=
  match db.nodes.get n with
  | none => .error (.nodeNotFound n)
  | some x => .ok ⟨n, x.label, x.properties, x.currentVersion⟩

/-- `CurrentStorage::get_edge`. -/
def getEdge (db : Db) (e : EdgeId) : Except StorageError Edge :=
  match db.edges.get e with
  | none => .error (.edgeNotFound e)
  | some x => .ok ⟨e, x.label, x.ends, x.properties, x.currentVersion⟩

/-- The version of an entity at a point of the two times, as `get_node_at_time` and
`get_edge_at_time` look it up. -/
def versionAtTime {K X : Type} [DecidableEq K] [EntityKind K X] (h : HistoricalStorage K X) (k : K)
    (validTime txTime : Timestamp) : Except StorageError (Version K X) :=
  match h.findVersionAtTime k validTime txTime with
  | none => .error (EntityKind.notFound X k)
  | some vid =>
    match h.getVersion vid with
    | none => .error (.versionNotFound vid)
    | some v => .ok v

def getNodeAtTime (db : Db) (n : NodeId) (validTime txTime : Timestamp) :
    Except StorageError Node :=
  (versionAtTime db.nodeHistory n validTime txTime).map fun v =>
    ⟨v.entity, v.content.label, v.content.properties, v.id⟩

def getEdgeAtTime (db : Db) (e : EdgeId) (validTime txTime : Timestamp) :
    Except StorageError Edge :=
  (versionAtTime db.edgeHistory e validTime txTime).map fun v =>
    ⟨v.entity, v.content.label, v.content.ends, v.content.properties, v.id⟩

/-- `node_missing_at_time`, on the errors of the storage. -/
def nodeMissingAtTime : StorageError → Bool
  | .nodeNotFound _ | .versionNotFound _ => true
  | _ => false

/-! ### The iterator -/

inductive Direction where
  | outgoing | incoming | both
deriving DecidableEq, Repr

structure TraversalIterator where
  direction : Direction
  label : Option InternedString
  minDepth : ℕ
  depth : ℕ
  temporalContext : Option (Timestamp × Timestamp)
  bindEdge : Bool
  /-- the namespaces of the scope, as a test of the properties that carry the namespace -/
  scope : Option (PropertyMap → Bool)

namespace TraversalIterator

variable (db : Db) (t : TraversalIterator)

def reconstructBoundEdge (e : EdgeId) : Except StorageError Edge :=
  match t.temporalContext with
  | some (validTime, txTime) => getEdgeAtTime db e validTime txTime
  | none => getEdge db e

def fetchTargetNode (n : NodeId) : Except StorageError (Option Node) :=
  match t.temporalContext with
  | some (validTime, txTime) =>
    match getNodeAtTime db n validTime txTime with
    | .ok node => .ok (some node)
    | .error e => if nodeMissingAtTime e then .ok none else .error e
  | none => (getNode db n).map some

/-- Whether the scope permits the step over the edge to the target. -/
def boundaryAllows (e : EdgeId) (target : NodeId) : Bool :=
  match t.scope, t.temporalContext with
  | none, _ => true
  | some inScope, none =>
    (db.edges.get e).any (fun x => inScope x.properties) &&
      (db.nodes.get target).any fun x => inScope x.properties
  | some inScope, some _ =>
    match t.reconstructBoundEdge db e, t.fetchTargetNode db target with
    | .ok edge, .ok (some node) => inScope edge.properties && inScope node.properties
    | _, _ => false

def edgeVisibleAtTime (e : EdgeId) : Bool :=
  match t.temporalContext with
  | some (validTime, txTime) => (db.edgeHistory.findVersionAtTime e validTime txTime).isSome
  | none => true

/-- The edges of one adjacency list, with the node at their other end. The label of an edge never
changes, so that the label in the list is that of the edge. -/
def neighborsAlong (edges : List EdgeId) (far : Endpoints → NodeId) : List (NodeId × EdgeId) :=
  edges.filterMap fun e =>
    (db.edges.get e).bind fun x =>
      if (t.label.all fun l => x.label = l) && t.edgeVisibleAtTime db e then some (far x.ends, e)
      else none

def getNeighbors (n : NodeId) : List (NodeId × EdgeId) :=
  let outgoing := t.neighborsAlong db (db.edges.outgoing n) Endpoints.target
  let incoming := t.neighborsAlong db (db.edges.incoming n) Endpoints.source
  match t.direction with
  | .outgoing => outgoing
  | .incoming => incoming
  | .both => outgoing ++ incoming

def hops (n : NodeId) : List (NodeId × EdgeId) :=
  (t.getNeighbors db n).filter fun hop => t.boundaryAllows db hop.2 hop.1

def pathOf (start : NodeId) (trail : List (NodeId × EdgeId)) : List EntityRef :=
  .node start :: trail.flatMap fun hop => [.edge hop.2, .node hop.1]

def emit (start : NodeId) (p : Bfs.Place NodeId EdgeId) : Option (Except StorageError QueryRow) :=
  if 1 ≤ p.depth ∧ t.minDepth ≤ p.depth ∧ p.depth ≤ t.depth then
    match t.fetchTargetNode db p.node with
    | .error e => some (.error e)
    | .ok none => none
    | .ok (some node) =>
      let row := QueryRow.withPath (.node node) (pathOf start p.trail)
      match t.bindEdge, p.trail.getLast? with
      | true, some hop => some ((t.reconstructBoundEdge db hop.2).map fun e => { row with edge := some e })
      | _, _ => some (.ok row)
  else none

/-- The rows for one start node; `none` if the fuel does not last. -/
def rowsFrom (fuel : ℕ) (start : NodeId) : Option (List (Except StorageError QueryRow)) :=
  (Bfs.visits (t.hops db) t.depth t.bindEdge fuel (Bfs.start start)).map fun places =>
    places.filterMap (t.emit db start)

/-- The rows for all rows of the input; those without a node are dropped. -/
def rows (fuel : ℕ) : List (Except StorageError QueryRow) →
    Option (List (Except StorageError QueryRow))
  | [] => some []
  | .error e :: input => (rows fuel input).map (.error e :: ·)
  | .ok row :: input =>
    match row.entity.nodeId? with
    | none => rows fuel input
    | some start =>
      (t.rowsFrom db fuel start).bind fun found => (rows fuel input).map (found ++ ·)

end TraversalIterator

end Aletheia.Query
