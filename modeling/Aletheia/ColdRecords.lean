import Aletheia.Current
import Aletheia.Exec
import Aletheia.PropertyDiff

/-!
# Records of the cold tier

`encode_node_version`, `decode_node_version` and their edge counterparts. A record is a tag for its
generation and a `bitcode` payload; `bitcode` gives back what it was given, so that a payload stands
for the value it encodes. Labels and keys are written as strings and interned again by the decoder.

Node and edge versions are encoded alike, so that one pair of functions is generic in the key and
the endpoints.
-/

namespace Aletheia.ColdStorage

/-! ### What the tier is given -/

/-- `0.0..=1.0` on the bits of an `f64`: from zero up to one, or minus zero. -/
def isConfidence (bits : BitVec 64) : Bool :=
  bits.toNat ≤ 0x3ff0000000000000 || bits = 0x8000000000000000#64

structure ProvenanceBundle where
  source : Option String
  confidence : Option (BitVec 64)
  note : Option String
  correlationId : Option String
  principal : Option String
  confidence_ok : ∀ c ∈ confidence, isConfidence c = true

inductive ProvenanceError where
  | invalidConfidence (confidence : BitVec 64)
deriving DecidableEq, Repr

/-- `Provenance::from_parts`. -/
def ProvenanceBundle.fromParts (source : Option String) (confidence : Option (BitVec 64))
    (note correlationId principal : Option String) : Except ProvenanceError ProvenanceBundle :=
  match confidence with
  | none => .ok ⟨source, none, note, correlationId, principal, by simp⟩
  | some c =>
    if h : isConfidence c = true then
      .ok ⟨source, some c, note, correlationId, principal, by simpa using h⟩
    else .error (.invalidConfidence c)

/-- `VersionData` with the id of the vector snapshot. -/
inductive StoredData where
  | anchor (properties : PropertyMap) (vectorSnapshotId : Option ℕ)
  | delta (delta : PropertyDelta)

/-- What reconstruction reads of the data. -/
def StoredData.payload : StoredData → VersionData
  | .anchor properties _ => .anchor properties
  | .delta d => .delta d

/-- `NodeVersion` / `EdgeVersion` with all its fields. -/
structure StoredVersion (K X : Type) where
  id : VersionId
  entity : K
  temporal : BiTemporalInterval
  label : InternedString
  ends : X
  data : StoredData
  commitTimestamp : Timestamp
  nextVersion : Option VersionId
  prevVersion : Option VersionId
  provenance : Option ProvenanceBundle

/-! ### The interner -/

/-- The strings in the order of their ids. -/
structure Interner where
  strings : List String
  nodup : strings.Nodup
  maxCapacity : ℕ

namespace Interner

def resolve (t : Interner) (id : InternedString) : Option String := t.strings[id]?

/-- `resolve_with(id, to_string).unwrap_or_default()`. -/
def text (t : Interner) (id : InternedString) : String := (t.resolve id).getD ""

end Interner

/-! ### Sparse vectors -/

inductive SparseVecError where
  | dimensionTooLarge (dimension maxAllowed : ℕ)
  | dimensionMismatch (expected actual : ℕ)
  | outOfBounds (index dimension : ℕ)
  | duplicateIndex (index : ℕ)
  | containsNaN
  | containsInfinity
  | containsZero
deriving DecidableEq, Repr

def isZero32 (x : BitVec 32) : Bool := x.extractLsb' 0 31 = 0

namespace SparseVec

def validateValue (x : BitVec 32) : Except SparseVecError Unit :=
  if isNaN32 x then .error .containsNaN
  else if isInfinite32 x then .error .containsInfinity
  else if isZero32 x then .error .containsZero
  else .ok ()

/-- The loop of the fast path: `false` where the indices are not sorted. -/
def scanSorted (dimension : ℕ) : ℕ → List (ℕ × BitVec 32) → Except SparseVecError Bool
  | _, [] => .ok true
  | prev, (i, x) :: rest =>
    if i = prev then .error (.duplicateIndex i)
    else if i < prev then .ok false
    else if dimension ≤ i then .error (.outOfBounds i dimension)
    else do
      validateValue x
      scanSorted dimension i rest

/-- The loop of the slow path, over the sorted entries. -/
def checkEntries (dimension : ℕ) : Option ℕ → List (ℕ × BitVec 32) → Except SparseVecError Unit
  | _, [] => .ok ()
  | prev, (i, x) :: rest => do
    validateValue x
    if dimension ≤ i then throw (.outOfBounds i dimension)
    if prev = some i then throw (.duplicateIndex i)
    checkEntries dimension (some i) rest

/-- `SparseVec::new`; the entries that the vector holds. -/
def new (indices : List ℕ) (values : List (BitVec 32)) (dimension : ℕ) :
    Except SparseVecError (List (ℕ × BitVec 32)) :=
  if PropertyValue.maxVectorDimensions < dimension then
    .error (.dimensionTooLarge dimension PropertyValue.maxVectorDimensions)
  else if indices.length ≠ values.length then
    .error (.dimensionMismatch indices.length values.length)
  else
    match indices.zip values with
    | [] => .ok []
    | (i, x) :: rest =>
      if dimension ≤ i then .error (.outOfBounds i dimension)
      else do
        validateValue x
        if ← scanSorted dimension i rest then return (i, x) :: rest
        else
          let sorted := ((i, x) :: rest).mergeSort fun a b => a.1 ≤ b.1
          checkEntries dimension none sorted
          return sorted

end SparseVec

/-! ### Property values -/

/-- An element of an array; neither arrays nor sparse vectors have a form here. -/
inductive SimpleArrayElement where
  | null
  | bool (b : Bool)
  | int (i : ℤ)
  | float (bits : BitVec 64)
  | string (s : String)
  | bytes (b : List UInt8)
  | vector (xs : List (BitVec 32))

inductive SerializablePropertyValue where
  | null
  | bool (b : Bool)
  | int (i : ℤ)
  | float (bits : BitVec 64)
  | string (s : String)
  | bytes (b : List UInt8)
  | array (encoded : List SimpleArrayElement)
  | vector (xs : List (BitVec 32))
  | sparseVector (dimension : ℕ) (indices : List ℕ) (values : List (BitVec 32))

/-- The errors of the decoder, each a `StorageError::corruption` with its text. -/
inductive DecodeError where
  | invalidProvenance (e : ProvenanceError)
  | invalidValidTime (e : TemporalError)
  | invalidTransactionTime (e : TemporalError)
  | invalidVersionId (id : ℕ)
  | invalidEntityId (id : ℕ)
  | invalidEndpoint (id : ℕ)
  | invalidNextVersion (id : ℕ)
  | invalidPrevVersion (id : ℕ)
  | internerFull (current limit : ℕ)
  | invalidSparseVector (e : SparseVecError)
deriving DecidableEq, Repr

def encodeElement : PropertyValue → SimpleArrayElement
  | .null => .null
  | .bool b => .bool b
  | .int i => .int i
  | .float bits => .float bits
  | .string s => .string s
  | .bytes b => .bytes b
  | .vector xs => .vector xs
  | .array _ | .sparseVector _ _ => .null

def encodePropertyValue : PropertyValue → SerializablePropertyValue
  | .null => .null
  | .bool b => .bool b
  | .int i => .int i
  | .float bits => .float bits
  | .string s => .string s
  | .bytes b => .bytes b
  | .array xs => .array (xs.map encodeElement)
  | .vector xs => .vector xs
  | .sparseVector dimension entries =>
    .sparseVector dimension (entries.map Prod.fst) (entries.map Prod.snd)

def decodeElement : SimpleArrayElement → PropertyValue
  | .null => .null
  | .bool b => .bool b
  | .int i => .int i
  | .float bits => .float bits
  | .string s => .string s
  | .bytes b => .bytes b
  | .vector xs => .vector xs

def decodePropertyValue : SerializablePropertyValue → Except DecodeError PropertyValue
  | .null => .ok .null
  | .bool b => .ok (.bool b)
  | .int i => .ok (.int i)
  | .float bits => .ok (.float bits)
  | .string s => .ok (.string s)
  | .bytes b => .ok (.bytes b)
  | .array encoded => .ok (.array (encoded.map decodeElement))
  | .vector xs => .ok (.vector xs)
  | .sparseVector dimension indices values =>
    match SparseVec.new indices values (dimension % 2 ^ 32) with
    | .ok entries => .ok (.sparseVector (dimension % 2 ^ 32) entries)
    | .error e => .error (.invalidSparseVector e)

/-! ### The record -/

structure SerializableProvenance where
  source : Option String
  confidence : Option (BitVec 64)
  note : Option String
  correlationId : Option String
  principal : Option String

/-- The bundle before there were principals. -/
structure SerializableProvenanceV2 where
  source : Option String
  confidence : Option (BitVec 64)
  note : Option String
  correlationId : Option String

inductive SerializableVersionData where
  | anchor (properties : List (String × SerializablePropertyValue)) (vectorSnapshotId : Option ℕ)
  | delta (changed : List (String × SerializablePropertyValue)) (removed : List String)

/-- `SerializableNodeVersion` and `SerializableEdgeVersion`: `E` are the endpoints, `P` is what the
generation has of the provenance. -/
structure SerializableVersion (E P : Type) where
  id : ℕ
  entityId : ℕ
  temporalValidStart : ℤ
  temporalValidEnd : ℤ
  temporalTxStart : ℤ
  temporalTxEnd : ℤ
  label : String
  ends : E
  data : SerializableVersionData
  nextVersion : Option ℕ
  prevVersion : Option ℕ
  provenance : P

/-- `COLD_RECORD_MAGIC_V3`, `COLD_RECORD_MAGIC_V2` or no tag, and the payload. -/
inductive ColdRecord (E : Type) where
  | v3 (payload : SerializableVersion E (Option SerializableProvenance))
  | v2 (payload : SerializableVersion E (Option SerializableProvenanceV2))
  | v1 (payload : SerializableVersion E Unit)

/-! ### Identifiers -/

/-- `MAX_VALID_ID`. -/
def maxValidId : ℕ := 2 ^ 64 - 1 - 1000

/-- The `u64` of a version id: the tag is bit 62. -/
def versionIdAsU64 (id : VersionId) : ℕ := if id.isStructural then 2 ^ 62 + id.seq else id.seq

/-- The id that a `u64` stands for. -/
def versionIdOfU64 (n : ℕ) : VersionId := ⟨if n.testBit 62 then n - 2 ^ 62 else n, n.testBit 62⟩

/-- `VersionId::new`, `NodeId::new` and `EdgeId::new`. -/
def checkId {α : Type} (make : ℕ → α) (error : ℕ → DecodeError) (n : ℕ) : Except DecodeError α :=
  if maxValidId < n then .error (error n) else .ok (make n)

/-- What the codec needs of a kind of entity. -/
class ColdEntity (K X : Type) (E : outParam Type) where
  asU64 : K → ℕ
  ofU64 : ℕ → K
  encodeEnds : X → E
  decodeEnds : E → Except DecodeError X
  ofU64_asU64 : ∀ k, ofU64 (asU64 k) = k
  /-- Both ends are ids that pass their check. -/
  EndsOk : X → Prop
  decodeEnds_encodeEnds : ∀ x, EndsOk x → decodeEnds (encodeEnds x) = .ok x

instance : ColdEntity NodeId Unit Unit where
  asU64 k := k.val
  ofU64 n := ⟨n⟩
  encodeEnds _ := ()
  decodeEnds _ := .ok ()
  ofU64_asU64 _ := rfl
  EndsOk _ := True
  decodeEnds_encodeEnds _ _ := rfl

instance : ColdEntity EdgeId Endpoints (ℕ × ℕ) where
  asU64 k := k.val
  ofU64 n := ⟨n⟩
  encodeEnds x := (x.source.val, x.target.val)
  decodeEnds e := do
    let source ← checkId NodeId.mk .invalidEndpoint e.1
    let target ← checkId NodeId.mk .invalidEndpoint e.2
    return ⟨source, target⟩
  ofU64_asU64 _ := rfl
  EndsOk x := x.source.val ≤ maxValidId ∧ x.target.val ≤ maxValidId
  decodeEnds_encodeEnds x h := by
    simp only [checkId, if_neg (not_lt.mpr h.1), if_neg (not_lt.mpr h.2)]
    rfl

/-! ### Encoding -/

section Encode

variable (t : Interner)

def encodeProperties (properties : PropertyMap) : List (String × SerializablePropertyValue) :=
  properties.entries.map fun e => (t.text e.1, encodePropertyValue e.2)

def encodeVersionData : StoredData → SerializableVersionData
  | .anchor properties vectorSnapshotId =>
    .anchor (encodeProperties t properties) vectorSnapshotId
  | .delta d => .delta (encodeProperties t d.changed) (d.removed.map t.text)

def encodeProvenance (p : ProvenanceBundle) : SerializableProvenance :=
  ⟨p.source, p.confidence, p.note, p.correlationId, p.principal⟩

/-- `encode_node_version` / `encode_edge_version`. -/
def encodeVersion {K X E : Type} [ColdEntity K X E] (v : StoredVersion K X) : ColdRecord E :=
  .v3
    { id := versionIdAsU64 v.id
      entityId := ColdEntity.asU64 X v.entity
      temporalValidStart := v.temporal.validTime.start.wallclock
      temporalValidEnd := v.temporal.validTime.stop.wallclock
      temporalTxStart := v.temporal.transactionTime.start.wallclock
      temporalTxEnd := v.temporal.transactionTime.stop.wallclock
      label := t.text v.label
      ends := ColdEntity.encodeEnds K v.ends
      data := encodeVersionData t v.data
      nextVersion := v.nextVersion.map versionIdAsU64
      prevVersion := v.prevVersion.map versionIdAsU64
      provenance := v.provenance.map encodeProvenance }

def encodeNodeVersion (v : StoredVersion NodeId Unit) : ColdRecord Unit := encodeVersion t v

def encodeEdgeVersion (v : StoredVersion EdgeId Endpoints) : ColdRecord (ℕ × ℕ) := encodeVersion t v

end Encode

/-! ### Decoding -/

/-- `StringInterner::intern`. -/
def intern (s : String) : EStateM DecodeError Interner InternedString := fun t =>
  if h : s ∈ t.strings then .ok (t.strings.idxOf s) t
  else if t.maxCapacity ≤ t.strings.length then
    .error (.internerFull t.strings.length t.maxCapacity) t
  else
    .ok t.strings.length
      { t with strings := t.strings ++ [s], nodup := t.nodup.append (by simp) (by simpa using h) }

/-- An `Except` among the steps. -/
def check {α : Type} (x : Except DecodeError α) : EStateM DecodeError Interner α :=
  Exec.readE fun _ => x

def decodeProperty (key : String) (value : SerializablePropertyValue) :
    EStateM DecodeError Interner (InternedString × PropertyValue) := do
  let value ← check (decodePropertyValue value)
  let key ← intern key
  return (key, value)

def decodeChange (key : String) (value : SerializablePropertyValue) :
    EStateM DecodeError Interner (InternedString × PropertyValue) := do
  let key ← intern key
  let value ← check (decodePropertyValue value)
  return (key, value)

/-- The inserts into a property map, in the order of the record. -/
def decodeProperties (entry : String → SerializablePropertyValue →
      EStateM DecodeError Interner (InternedString × PropertyValue)) :
    List (String × SerializablePropertyValue) → PropertyMap →
    EStateM DecodeError Interner PropertyMap
  | [], m => pure m
  | (key, value) :: rest, m => do
    let e ← entry key value
    decodeProperties entry rest (m.insert e.1 e.2)

/-- The inserts into `delta.removed`. -/
def decodeRemoved : List String → List InternedString →
    EStateM DecodeError Interner (List InternedString)
  | [], removed => pure removed
  | key :: rest, removed => do
    let key ← intern key
    decodeRemoved rest (if key ∈ removed then removed else removed ++ [key])

def decodeVersionData : SerializableVersionData → EStateM DecodeError Interner StoredData
  | .anchor properties vectorSnapshotId => do
    let properties ← decodeProperties decodeProperty properties ∅
    return .anchor properties vectorSnapshotId
  | .delta changed removed => do
    let changed ← decodeProperties decodeChange changed ∅
    let removed ← decodeRemoved removed []
    return .delta ⟨changed, ∅, removed⟩

def decodeProvenance (persisted : Option SerializableProvenance) :
    Except DecodeError (Option ProvenanceBundle) :=
  match persisted with
  | none => .ok none
  | some p =>
    match ProvenanceBundle.fromParts p.source p.confidence p.note p.correlationId p.principal with
    | .ok bundle => .ok (some bundle)
    | .error e => .error (.invalidProvenance e)

def decodeProvenanceV2 (persisted : Option SerializableProvenanceV2) :
    Except DecodeError (Option ProvenanceBundle) :=
  decodeProvenance (persisted.map fun p => ⟨p.source, p.confidence, p.note, p.correlationId, none⟩)

/-- `TimeRange::new`. -/
def timeRangeNew (start stop : Timestamp) : Except TemporalError TimeRange :=
  if stop < start then .error (.invalidTimeRange start stop)
  else if start.wallclock > maxValidTimestamp ∧ start ≠ timestampMax then
    .error (.invalidTimestamp start)
  else if stop.wallclock > maxValidTimestamp ∧ stop ≠ timestampMax then
    .error (.invalidTimestamp stop)
  else .ok ⟨start, stop⟩

def decodeRange (error : TemporalError → DecodeError) (start stop : ℤ) :
    Except DecodeError TimeRange :=
  match timeRangeNew ⟨start, 0⟩ ⟨stop, 0⟩ with
  | .ok r => .ok r
  | .error e => .error (error e)

def decodeLink (error : ℕ → DecodeError) : Option ℕ → Except DecodeError (Option VersionId)
  | none => .ok none
  | some n => (checkId versionIdOfU64 error n).map some

section Decode

variable {K X E : Type} [ColdEntity K X E]

/-- What all generations have in common. -/
def decodePayload {P : Type} (s : SerializableVersion E P)
    (provenance : Except DecodeError (Option ProvenanceBundle)) :
    EStateM DecodeError Interner (StoredVersion K X) := do
  let provenance ← check provenance
  let validTime ← check (decodeRange .invalidValidTime s.temporalValidStart s.temporalValidEnd)
  let txTime ← check (decodeRange .invalidTransactionTime s.temporalTxStart s.temporalTxEnd)
  let id ← check (checkId versionIdOfU64 .invalidVersionId s.id)
  let entity ← check (checkId (ColdEntity.ofU64 X) .invalidEntityId s.entityId)
  let label ← intern s.label
  let ends ← check (ColdEntity.decodeEnds K s.ends)
  let data ← decodeVersionData s.data
  let nextVersion ← check (decodeLink .invalidNextVersion s.nextVersion)
  let prevVersion ← check (decodeLink .invalidPrevVersion s.prevVersion)
  return { id, entity, temporal := ⟨validTime, txTime⟩, label, ends, data,
           commitTimestamp := txTime.start, nextVersion, prevVersion, provenance }

/-- `decode_node_version` / `decode_edge_version`. -/
def decodeVersion (r : ColdRecord E) : EStateM DecodeError Interner (StoredVersion K X) :=
  match r with
  | .v3 s => decodePayload s (decodeProvenance s.provenance)
  | .v2 s => decodePayload s (decodeProvenanceV2 s.provenance)
  | .v1 s => decodePayload s (.ok none)

end Decode

def decodeNodeVersion : ColdRecord Unit → EStateM DecodeError Interner (StoredVersion NodeId Unit) :=
  decodeVersion

def decodeEdgeVersion : ColdRecord (ℕ × ℕ) →
    EStateM DecodeError Interner (StoredVersion EdgeId Endpoints) :=
  decodeVersion

end Aletheia.ColdStorage
