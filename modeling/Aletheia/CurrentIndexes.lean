import Aletheia.Current

/-!
# The indexes of current storage

The primary maps of nodes and edges, and what is derived from them: label headers, membership of
namespaces, equality indexes on properties, and adjacency in both directions. Every operation updates
each of them by hand. The adjacency index is taken at rest: between operations nothing is in flight.
A map without an entry for a key stands for one with an empty set there.
-/

namespace Aletheia

structure Edge where
  source : NodeId
  target : NodeId
  edgeId : EdgeId
  label : ℕ
deriving DecidableEq

def entriesOf (node : NodeId) (edges : List Edge) : List Edge :=
  edges.filter fun e => e.source = node

/-! ### Namespaces -/

structure Namespace where
  name : String
deriving DecidableEq, Repr

namespace Namespace

def default : Namespace := ⟨"default"⟩

def isReservedPropertyKey (key : String) : Bool :=
  "__aletheia_".toList.isPrefixOf key.toList || "__shred_".toList.isPrefixOf key.toList

def isNameChar (c : Char) : Bool :=
  'A' ≤ c ∧ c ≤ 'Z' || 'a' ≤ c ∧ c ≤ 'z' || '0' ≤ c ∧ c ≤ '9' || c ∈ ['.', '_', ':', '/', '-']

/-- `Namespace::new`; the reasons of its errors are not read here. -/
def new (name : String) : Option Namespace :=
  if name.isEmpty then none
  else if 128 < name.utf8ByteSize then none
  else if name = "all" then none
  else if isReservedPropertyKey name then none
  else if name.toList.all isNameChar then some ⟨name⟩
  else none

end Namespace

/-- `namespace_of`: the value of the reserved property `key`, if it is a name. -/
def namespaceOf (key : InternedString) (properties : PropertyMap) : Namespace :=
  match properties.lookup key with
  | some (.string s) => (Namespace.new s).getD .default
  | _ => .default

/-! ### Adjacency at rest -/

/-- The layers of an adjacency index; the source of an entry is the node it is listed under. -/
structure RestingAdjacency where
  frozen : List Edge
  delta : List Edge
  tombstones : List EdgeId

namespace RestingAdjacency

def insert (a : RestingAdjacency) (entry : Edge) : RestingAdjacency :=
  { a with delta := a.delta ++ [entry] }

def delete (a : RestingAdjacency) (edgeId : EdgeId) : RestingAdjacency :=
  { a with tombstones := a.tombstones.insert edgeId }

/-- The entries of both layers that are not deleted. -/
def entries (a : RestingAdjacency) : List Edge :=
  (a.frozen ++ a.delta).filter fun e => e.edgeId ∉ a.tombstones

def getAdjacency (a : RestingAdjacency) (node : NodeId) : List Edge := entriesOf node a.entries

/-- `compact`, with no reader on the frozen layer. -/
def compact (a : RestingAdjacency) : RestingAdjacency := ⟨a.entries, [], []⟩

end RestingAdjacency

/-! ### The indexes -/

namespace CurrentIndexes

inductive ValueKey where
  | bool (b : Bool)
  | int (i : ℤ)
  | str (s : String)
deriving DecidableEq, Repr

def valueKey : PropertyValue → Option ValueKey
  | .bool b => some (.bool b)
  | .int i => some (.int i)
  | .string s => some (.str s)
  | .null | .float _ | .bytes _ | .array _ | .vector _ | .sparseVector _ _ => none

/-- A label and a property an equality index is enabled for. -/
abbrev IndexPair := InternedString × InternedString

/-- The buckets of the equality indexes: the nodes with a value. -/
abbrev Buckets := IndexPair → ValueKey → List NodeId

end CurrentIndexes

structure CurrentIndexes where
  nodes : AList (fun _ : NodeId => Entity Unit)
  nodeHeaders : AList (fun _ : NodeId => InternedString)
  edges : AList (fun _ : EdgeId => Entity Endpoints)
  outgoing : RestingAdjacency
  incoming : RestingAdjacency
  nsNodes : Namespace → List NodeId
  nsEdges : Namespace → List EdgeId
  propIndexEnabled : List CurrentIndexes.IndexPair
  propIndex : CurrentIndexes.Buckets

namespace CurrentIndexes

def new : CurrentIndexes where
  nodes := ∅
  nodeHeaders := ∅
  edges := ∅
  outgoing := ⟨[], [], []⟩
  incoming := ⟨[], [], []⟩
  nsNodes _ := []
  nsEdges _ := []
  propIndexEnabled := []
  propIndex _ _ := []

/-- The key of a node's value of a property. -/
def keyOf (node : Entity Unit) (key : InternedString) : Option ValueKey :=
  (node.properties.lookup key).bind valueKey

def bucketInsert (pair : IndexPair) (value : Option ValueKey) (id : NodeId) (b : Buckets) :
    Buckets :=
  match value with
  | none => b
  | some v => Function.update b pair (Function.update (b pair) v ((b pair v).insert id))

/-- `prop_index_remove`. -/
def bucketRemove (pair : IndexPair) (value : Option ValueKey) (id : NodeId) (b : Buckets) :
    Buckets :=
  match value with
  | none => b
  | some v => Function.update b pair (Function.update (b pair) v ((b pair v).filter (· ≠ id)))

/-- The body of the loop of `reindex_node_property`, for one enabled pair. -/
def reindexPair (id : NodeId) (old : Option (Entity Unit)) (new : Entity Unit) (b : Buckets)
    (pair : IndexPair) : Buckets :=
  let isOld := old.any fun n => pair.1 = n.label
  let isNew : Bool := pair.1 = new.label
  let oldKey := old.bind fun n => keyOf n pair.2
  let newKey := keyOf new pair.2
  if !isOld && !isNew then b
  else if isOld && isNew then
    if oldKey = newKey then b
    else bucketInsert pair newKey id (bucketRemove pair oldKey id b)
  else if isOld then bucketRemove pair oldKey id b
  else bucketInsert pair newKey id b

section

variable (nsKey : InternedString)

def insertNode (id : NodeId) (node : Entity Unit) (s : CurrentIndexes) : CurrentIndexes :=
  let ns := namespaceOf nsKey node.properties
  { s with
    nodes := s.nodes.insert id node
    nodeHeaders := s.nodeHeaders.insert id node.label
    nsNodes := Function.update s.nsNodes ns ((s.nsNodes ns).insert id)
    propIndex := s.propIndexEnabled.foldl (reindexPair id (s.nodes.lookup id) node) s.propIndex }

def outEntry (id : EdgeId) (edge : Entity Endpoints) : Edge :=
  ⟨edge.ends.source, edge.ends.target, id, edge.label⟩

def inEntry (id : EdgeId) (edge : Entity Endpoints) : Edge :=
  ⟨edge.ends.target, edge.ends.source, id, edge.label⟩

/-- An edge that is already there is replaced in the map alone. -/
def insertEdge (id : EdgeId) (edge : Entity Endpoints) (s : CurrentIndexes) : CurrentIndexes :=
  match s.edges.lookup id with
  | some _ => { s with edges := s.edges.insert id edge }
  | none =>
    let ns := namespaceOf nsKey edge.properties
    { s with
      edges := s.edges.insert id edge
      outgoing := s.outgoing.insert (outEntry id edge)
      incoming := s.incoming.insert (inEntry id edge)
      nsEdges := Function.update s.nsEdges ns ((s.nsEdges ns).insert id) }

/-- The body of the loop of `remove_node`, for one enabled pair. -/
def unindexPair (id : NodeId) (node : Entity Unit) (b : Buckets) (pair : IndexPair) : Buckets :=
  if pair.1 = node.label then bucketRemove pair (keyOf node pair.2) id b else b

def removeNode (id : NodeId) (s : CurrentIndexes) : CurrentIndexes :=
  match s.nodes.lookup id with
  | none => s
  | some node =>
    let ns := namespaceOf nsKey node.properties
    { s with
      nodes := s.nodes.erase id
      nodeHeaders := s.nodeHeaders.erase id
      nsNodes := Function.update s.nsNodes ns ((s.nsNodes ns).filter (· ≠ id))
      propIndex := s.propIndexEnabled.foldl (unindexPair id node) s.propIndex }

def removeEdge (id : EdgeId) (s : CurrentIndexes) : CurrentIndexes :=
  match s.edges.lookup id with
  | none => s
  | some edge =>
    let ns := namespaceOf nsKey edge.properties
    { s with
      edges := s.edges.erase id
      outgoing := s.outgoing.delete id
      incoming := s.incoming.delete id
      nsEdges := Function.update s.nsEdges ns ((s.nsEdges ns).filter (· ≠ id)) }

end

/-- The stale buckets of the pair are dropped, then all nodes are entered. -/
def enablePropertyIndex (pair : IndexPair) (s : CurrentIndexes) : CurrentIndexes :=
  if pair ∈ s.propIndexEnabled then s
  else
    { s with
      propIndex := s.nodes.entries.foldl
        (fun b e => if e.2.label = pair.1 then bucketInsert pair (keyOf e.2 pair.2) e.1 b else b)
        (Function.update s.propIndex pair fun _ => [])
      propIndexEnabled := s.propIndexEnabled ++ [pair] }

def disablePropertyIndex (pair : IndexPair) (s : CurrentIndexes) : CurrentIndexes :=
  if pair ∈ s.propIndexEnabled then
    { s with
      propIndexEnabled := s.propIndexEnabled.filter (· ≠ pair)
      propIndex := Function.update s.propIndex pair fun _ => [] }
  else s

def compactAdjacency (s : CurrentIndexes) : CurrentIndexes :=
  { s with outgoing := s.outgoing.compact, incoming := s.incoming.compact }

/-! ### Reads -/

def findNodesByPropertyIndexed (s : CurrentIndexes) (label key : InternedString)
    (value : ValueKey) : List NodeId :=
  s.propIndex (label, key) value

def filterNodesByLabel (s : CurrentIndexes) (label : InternedString) : List NodeId :=
  (s.nodeHeaders.entries.filter fun e => e.2 = label).map Sigma.fst

def getOutgoingWithLabel (s : CurrentIndexes) (source : NodeId) (label : InternedString) :
    List Edge :=
  (s.outgoing.getAdjacency source).filter fun e => e.label = label

def getIncomingWithLabel (s : CurrentIndexes) (target : NodeId) (label : InternedString) :
    List Edge :=
  (s.incoming.getAdjacency target).filter fun e => e.label = label

/-! ### Runs -/

inductive Op where
  | insertNode (id : NodeId) (node : Entity Unit)
  | insertEdge (id : EdgeId) (edge : Entity Endpoints)
  | removeNode (id : NodeId)
  | removeEdge (id : EdgeId)
  | enablePropertyIndex (pair : IndexPair)
  | disablePropertyIndex (pair : IndexPair)
  | compactAdjacency

def exec (nsKey : InternedString) (s : CurrentIndexes) : Op → CurrentIndexes
  | .insertNode id node => s.insertNode nsKey id node
  | .insertEdge id edge => s.insertEdge nsKey id edge
  | .removeNode id => s.removeNode nsKey id
  | .removeEdge id => s.removeEdge nsKey id
  | .enablePropertyIndex pair => s.enablePropertyIndex pair
  | .disablePropertyIndex pair => s.disablePropertyIndex pair
  | .compactAdjacency => s.compactAdjacency

end CurrentIndexes

end Aletheia
