import Mathlib.Data.Finmap
import Aletheia.Version

/-!
# Current storage

The latest version of every live entity, with the adjacency lists of the edges and the vector
indexes that node writes go through first. As in the history, one store generic in the key and the
endpoints stands for the node map and for the edge map.
-/

namespace Aletheia

/-- Which transaction wrote an entry, and its commit timestamp once the commit is final. -/
structure VersionMetadata where
  createdByTx : TxId
  commitTimestamp : Option Timestamp
deriving DecidableEq, Repr

/-- `Node` / `Edge` as current storage holds them. -/
structure Entity (X : Type) where
  label : InternedString
  properties : PropertyMap
  ends : X
  currentVersion : VersionId
  metadata : VersionMetadata

inductive EntityRef where
  | node (id : NodeId)
  | edge (id : EdgeId)
deriving DecidableEq, Repr

/-- What tells node stores from edge stores: whether entries have endpoints, and the error for a
missing key. -/
class EntityKind (K X : Type) where
  endpoints : X → Option Endpoints
  notFound : K → StorageError

instance : EntityKind NodeId Unit := ⟨fun _ => none, .nodeNotFound⟩
instance : EntityKind EdgeId Endpoints := ⟨some, .edgeNotFound⟩

/-! ### Vector indexes -/

/-- A vector index on a node property; its graph of vectors is not represented. -/
structure VectorIndex where
  property : InternedString
  dimensions : ℕ
  isMmap : Bool
deriving DecidableEq, Repr

/-- An `f32` with all exponent bits set is infinite or, with a non-zero mantissa, a NaN. -/
def isNaN32 (x : BitVec 32) : Bool := x.extractLsb' 23 8 = 255 ∧ x.extractLsb' 0 23 ≠ 0

def isInfinite32 (x : BitVec 32) : Bool := x.extractLsb' 23 8 = 255 ∧ x.extractLsb' 0 23 = 0

/-- An `f64` with all exponent bits set and a non-zero mantissa. -/
def isNaN64 (x : BitVec 64) : Bool := x.extractLsb' 52 11 = 2047 ∧ x.extractLsb' 0 52 ≠ 0

/-- `validate_vector`: NaNs are reported before infinities. -/
def validateVector (v : List (BitVec 32)) : Except VectorError Unit :=
  if 0 < v.countP isNaN32 then .error (.containsNaN (v.countP isNaN32))
  else if 0 < v.countP isInfinite32 then .error (.containsInfinity (v.countP isInfinite32))
  else .ok ()

/-- The checks of `HnswIndex::add`. -/
def VectorIndex.add (ix : VectorIndex) (v : List (BitVec 32)) : Except VectorError Unit :=
  if ix.isMmap then .error (.indexError "Cannot modify memory-mapped index (read-only)")
  else do
    validateVector v
    if v.length ≠ ix.dimensions then throw (.dimensionMismatch ix.dimensions v.length)

def PropertyValue.asVector : PropertyValue → Option (List (BitVec 32))
  | .vector xs => some xs
  | _ => none

/-- The vector that `properties` holds for the index. -/
def VectorIndex.vectorOf (ix : VectorIndex) (properties : PropertyMap) :
    Option (List (BitVec 32)) :=
  (properties.lookup ix.property).bind PropertyValue.asVector

/-- What an index does when a node appears with `new` or changes from `old` to `new`. -/
def VectorIndex.update (ix : VectorIndex) (old new : Option (List (BitVec 32))) :
    Except VectorError Unit :=
  match old, new with
  | _, none => .ok ()
  | none, some v => ix.add v
  | some o, some v => if o ≠ v then ix.add v else .ok ()

/-! ### The store -/

structure CurrentStorage (K X : Type) where
  entities : Finmap (fun _ : K => Entity X)
  outgoing : NodeId → List K
  incoming : NodeId → List K
  vectorIndexes : List VectorIndex

namespace CurrentStorage

variable {K X : Type} [DecidableEq K]

def empty (vectorIndexes : List VectorIndex) : CurrentStorage K X :=
  ⟨∅, fun _ => [], fun _ => [], vectorIndexes⟩

def get (s : CurrentStorage K X) (k : K) : Option (Entity X) := s.entities.lookup k

/-- `try_index_vector` and `update_vector_index` for every enabled index. -/
def indexVectors (s : CurrentStorage K X) (old : Option PropertyMap) (new : PropertyMap) :
    Except StorageError Unit :=
  s.vectorIndexes.forM fun ix =>
    match ix.update (old.bind ix.vectorOf) (ix.vectorOf new) with
    | .ok () => .ok ()
    | .error e => .error (.vector e)

/-- `insert_node` / `insert_edge`: an occupied edge slot keeps its adjacency entries. -/
def insert [EntityKind K X] (s : CurrentStorage K X) (k : K) (x : Entity X) :
    CurrentStorage K X :=
  match s.get k, EntityKind.endpoints K x.ends with
  | none, some e =>
    { s with
      entities := s.entities.insert k x
      outgoing := Function.update s.outgoing e.source (s.outgoing e.source ++ [k])
      incoming := Function.update s.incoming e.target (s.incoming e.target ++ [k]) }
  | _, _ => { s with entities := s.entities.insert k x }

/-- `insert_node_direct` / `insert_edge_direct` (only node stores have vector indexes). -/
def insertDirect [EntityKind K X] (k : K) (x : Entity X) (s : CurrentStorage K X) :
    Except StorageError (CurrentStorage K X) := do
  s.indexVectors none x.properties
  return s.insert k x

/-- `update_node_direct` / `update_edge_direct`. -/
def updateDirect [EntityKind K X] (k : K) (x : Entity X) (s : CurrentStorage K X) :
    Except StorageError (CurrentStorage K X) := do
  s.indexVectors ((s.get k).map (·.properties)) x.properties
  return s.insert k x

/-- `remove_node` / `remove_edge`: an edge also leaves both adjacency indexes. -/
def remove [EntityKind K X] (s : CurrentStorage K X) (k : K) (x : Entity X) :
    CurrentStorage K X :=
  match EntityKind.endpoints K x.ends with
  | none => { s with entities := s.entities.erase k }
  | some _ =>
    { s with
      entities := s.entities.erase k
      outgoing := fun n => (s.outgoing n).filter (· ≠ k)
      incoming := fun n => (s.incoming n).filter (· ≠ k) }

/-- `delete_node_direct` / `delete_edge_direct`. -/
def deleteDirect [EntityKind K X] (k : K) (s : CurrentStorage K X) :
    Except StorageError (CurrentStorage K X) :=
  match s.get k with
  | none => .error (EntityKind.notFound X k)
  | some x => .ok (s.remove k x)

/-- `set_node_commit_timestamp` / `set_edge_commit_timestamp`; a missing entity is ignored. -/
def setCommitTimestamp (k : K) (ts : Timestamp) (s : CurrentStorage K X) : CurrentStorage K X :=
  match s.get k with
  | none => s
  | some x => { s with entities := s.entities.insert k { x with metadata.commitTimestamp := some ts } }

section Lookup

variable [EntityKind K X] {s : CurrentStorage K X} {k k' : K} {x : Entity X}

omit [EntityKind K X] in
@[simp] lemma get_empty {vs : List VectorIndex} : (empty vs : CurrentStorage K X).get k = none :=
  Finmap.lookup_empty k

lemma insert_entities : (s.insert k x).entities = s.entities.insert k x := by
  simp only [insert]
  split <;> rfl

lemma remove_entities : (s.remove k x).entities = s.entities.erase k := by
  simp only [remove]
  split <;> rfl

@[simp] lemma get_insert_self : (s.insert k x).get k = some x := by
  rw [get, insert_entities, Finmap.lookup_insert]

lemma get_insert_of_ne (h : k' ≠ k) : (s.insert k x).get k' = s.get k' := by
  rw [get, insert_entities, Finmap.lookup_insert_of_ne _ h, get]

@[simp] lemma get_remove_self : (s.remove k x).get k = none := by
  rw [get, remove_entities, Finmap.lookup_erase]

lemma get_remove_of_ne (h : k' ≠ k) : (s.remove k x).get k' = s.get k' := by
  rw [get, remove_entities, Finmap.lookup_erase_ne h, get]

omit [EntityKind K X] in
lemma get_setCommitTimestamp {ts : Timestamp} : (s.setCommitTimestamp k ts).get k' =
    if k' = k then (s.get k).map fun x => { x with metadata.commitTimestamp := some ts }
    else s.get k' := by
  simp only [setCommitTimestamp]
  rcases hk : s.get k with _ | x
  · by_cases hne : k' = k
    · simp only [hne, hk, if_true, Option.map_none]
    · simp only [if_neg hne]
  · by_cases hne : k' = k
    · simp only [hne, if_true, Option.map_some]
      exact Finmap.lookup_insert _
    · simp only [if_neg hne]
      exact Finmap.lookup_insert_of_ne _ hne

end Lookup

end CurrentStorage

end Aletheia
