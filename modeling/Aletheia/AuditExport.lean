import Aletheia.ProvenanceChain

/-!
# Signed audit exports

An export holds metadata and entities with all their versions, a hash for each version, a root hash
that folds the metadata, the headers of the entities and the hashes of the versions, and a signature
of the root. The hashes are taken over the canonical encoding of the typed content, so that texts
which denote the same bytes or the same float are not told apart.
-/

namespace Aletheia.Audit

open ByteCode

abbrev Digest := Provenance.Digest

/-! ### Hexadecimal texts and float tokens -/

def hexVal (c : UInt8) : Option UInt8 :=
  if 48 ≤ c ∧ c ≤ 57 then some (c - 48)
  else if 97 ≤ c ∧ c ≤ 102 then some (c - 97 + 10)
  else if 65 ≤ c ∧ c ≤ 70 then some (c - 65 + 10)
  else none

/-- `hex::decode`, on the bytes of the text. -/
def hexDecode : List UInt8 → Option (List UInt8)
  | [] => some []
  | [_] => none
  | hi :: lo :: rest =>
    match hexVal hi, hexVal lo, hexDecode rest with
    | some h, some l, some bytes => some ((h <<< 4 ||| l) :: bytes)
    | _, _, _ => none

def f64Nan : BitVec 64 := 0x7ff8000000000000#64

def f64Infinity : BitVec 64 := 0x7ff0000000000000#64

def f64NegInfinity : BitVec 64 := 0xfff0000000000000#64

/-- The exponent is all ones and the fraction is not zero. -/
def isNan (bits : BitVec 64) : Bool :=
  bits.extractLsb' 52 11 == BitVec.allOnes 11 && bits.extractLsb' 0 52 != 0

-- `parse` is `str::parse::<f64>`
variable (parse : String → Option (BitVec 64))

def tokenToF64 (s : String) : Option (BitVec 64) :=
  if s = "NaN" then some f64Nan
  else if s = "Infinity" then some f64Infinity
  else if s = "-Infinity" then some f64NegInfinity
  else parse s

/-- A token that is no float counts as NaN. -/
def tokenBits (s : String) : BitVec 64 := (tokenToF64 parse s).getD f64Nan

/-! ### The artifact -/

inductive ExportedValue where
  | null
  | bool (value : Bool)
  | int (value : Int64)
  | float (value : BitVec 64)
  | string (value : Text)
  | bytes (hex : Text)
  | array (values : List ExportedValue)
  | vector (values : Vec Text)
  | sparseVector (dimension : UInt64) (indices : Vec UInt32) (values : Vec Text)

mutual

/-- The arrays in the value fit in memory. -/
def ExportedValue.Sized : ExportedValue → Prop
  | .array values => values.length < 256 ^ 8 ∧ allSized values
  | _ => True

def ExportedValue.allSized : List ExportedValue → Prop
  | [] => True
  | v :: vs => v.Sized ∧ allSized vs

end

structure ExportedProperty where
  key : Text
  /-- `none` when redacted -/
  value : Option { v : ExportedValue // v.Sized }
  redacted : Bool

structure ExportedProvenance where
  source : Option Text
  confidence : Option (BitVec 64)
  note : Option Text
  correlationId : Option Text
  principal : Option Text

structure ExportedVersion where
  versionNumber : UInt64
  versionId : UInt64
  label : Text
  validFromMicros : Int64
  validFromLogical : UInt32
  validToMicros : Option Int64
  validToLogical : Option UInt32
  transactionFromMicros : Int64
  transactionFromLogical : UInt32
  transactionToMicros : Option Int64
  transactionToLogical : Option UInt32
  isCurrent : Bool
  provenance : Option ExportedProvenance
  properties : Vec ExportedProperty

structure ExportedEntity where
  kind : Text
  id : UInt64
  label : Option Text
  source : Option UInt64
  target : Option UInt64
  versions : List ExportedVersion

structure EntityIdRecord where
  kind : Text
  id : UInt64

structure NotIncludedRecord where
  kind : Text
  id : UInt64
  reason : Text

structure CoordinateRecord where
  validTime : Option Text
  transactionTime : Option Text

structure ScopeRecord where
  kind : Text
  requested : Vec EntityIdRecord
  included : Vec EntityIdRecord
  notIncluded : Vec NotIncludedRecord
  coordinate : Option CoordinateRecord
  hops : Option UInt32

structure ChainAnchor where
  sourceLsn : UInt64
  description : Text

structure ExportMetadata where
  databaseId : Text
  exportedAt : Text
  toolVersion : Text
  scopeDescription : Text
  scope : ScopeRecord
  chainAnchor : ChainAnchor
  redactedKeys : Vec Text
  entityCount : UInt64
  versionCount : UInt64
  hashAlgorithm : Text
  signatureAlgorithm : Text

structure ChainProof where
  algorithm : String
  leaves : List String
  root : String

structure SignatureBlock where
  algorithm : String
  publicKey : String
  signature : String
  signed : String

structure AuditExport where
  formatVersion : ℕ
  metadata : ExportMetadata
  entities : List ExportedEntity
  chain : ChainProof
  signature : SignatureBlock

/-! ### The canonical encoding -/

namespace Canon

open Aletheia.Canon

def text (s : Text) : List UInt8 := str s.1

def uint32 (v : UInt32) : List UInt8 := u32 v.toNat

def uint64 (v : UInt64) : List UInt8 := u64 v.toNat

def int64 (v : Int64) : List UInt8 := i64 v.toInt

/-- Decoded bytes, or the text itself if it is no hexadecimal text. -/
def hexBytes (hex : Text) : List UInt8 :=
  match hexDecode (utf8 hex.1) with
  | some b => 0 :: bytes b
  | none => 1 :: text hex

def token (s : Text) : List UInt8 := f64bits (tokenBits parse s.1)

mutual

def value : ExportedValue → List UInt8
  | .null => [0]
  | .bool b => 1 :: bool b
  | .int i => 2 :: int64 i
  | .float f => 3 :: f64bits f
  | .string s => 4 :: text s
  | .bytes hex => 5 :: hexBytes hex
  | .array items => 6 :: (u64 items.length ++ values items)
  | .vector xs => 7 :: counted (token parse) xs.1
  | .sparseVector dimension indices xs =>
    8 :: (uint64 dimension ++ (counted uint32 indices.1 ++ counted (token parse) xs.1))

def values : List ExportedValue → List UInt8
  | [] => []
  | x :: xs => value x ++ values xs

end

def provenance (p : ExportedProvenance) : List UInt8 :=
  opt text p.source ++ (opt f64bits p.confidence ++ (opt text p.note ++
    (opt text p.correlationId ++ opt text p.principal)))

def property (p : ExportedProperty) : List UInt8 :=
  text p.key ++ (bool p.redacted ++
    opt (fun v : { v : ExportedValue // v.Sized } => value parse v.1) p.value)

/-- In the order of the bytes of the keys. -/
def sortedProperties (properties : List ExportedProperty) : List ExportedProperty :=
  properties.mergeSort fun a b => decide ((utf8 a.key.1).map (·.toNat) ≤ (utf8 b.key.1).map (·.toNat))

def sortedKeys (keys : List Text) : List Text :=
  keys.mergeSort fun a b => decide ((utf8 a.1).map (·.toNat) ≤ (utf8 b.1).map (·.toNat))

def entityId (e : EntityIdRecord) : List UInt8 := text e.kind ++ uint64 e.id

def notIncluded (e : NotIncludedRecord) : List UInt8 := text e.kind ++ (uint64 e.id ++ text e.reason)

def coordinate (c : CoordinateRecord) : List UInt8 := opt text c.validTime ++ opt text c.transactionTime

end Canon

open Aletheia.Canon Canon

def versionCanonical (entityKind : Text) (entityId : UInt64) (v : ExportedVersion) : List UInt8 :=
  text entityKind ++ (uint64 entityId ++ (uint64 v.versionNumber ++ (uint64 v.versionId ++
    (text v.label ++ (int64 v.validFromMicros ++ (uint32 v.validFromLogical ++
    (opt int64 v.validToMicros ++ (opt uint32 v.validToLogical ++ (int64 v.transactionFromMicros ++
    (uint32 v.transactionFromLogical ++ (opt int64 v.transactionToMicros ++
    (opt uint32 v.transactionToLogical ++ (bool v.isCurrent ++ (opt Canon.provenance v.provenance ++
      counted (property parse) (sortedProperties v.properties.1)))))))))))))))

def metadataCanonical (m : ExportMetadata) : List UInt8 :=
  text m.databaseId ++ (text m.exportedAt ++ (text m.toolVersion ++ (text m.scopeDescription ++
    (text m.scope.kind ++ (counted entityId m.scope.requested.1 ++
    (counted entityId m.scope.included.1 ++ (counted notIncluded m.scope.notIncluded.1 ++
    (opt coordinate m.scope.coordinate ++ (opt uint32 m.scope.hops ++
    (uint64 m.chainAnchor.sourceLsn ++ (text m.chainAnchor.description ++
    (counted text (sortedKeys m.redactedKeys.1) ++ (uint64 m.entityCount ++ (uint64 m.versionCount ++
    (text m.hashAlgorithm ++ text m.signatureAlgorithm)))))))))))))))

def entityHeaderCanonical (e : ExportedEntity) : List UInt8 :=
  text e.kind ++ (uint64 e.id ++ (opt text e.label ++ (opt uint64 e.source ++ opt uint64 e.target)))

/-! ### Hashes -/

def leafDomain : List UInt8 := Provenance.domainTag "aletheiadb.audit.v1.leaf"

def rootDomain : List UInt8 := Provenance.domainTag "aletheiadb.audit.v1.root"

def headerDomain : List UInt8 := Provenance.domainTag "aletheiadb.audit.v1.header"

variable (sha : List UInt8 → Digest)

def hashDomain (domain payload : List UInt8) : Digest := sha (domain ++ payload)

def fold (acc next : Digest) : Digest := sha (acc.toList ++ next.toList)

def versionLeaf (e : ExportedEntity) (v : ExportedVersion) : Digest :=
  hashDomain sha leafDomain (versionCanonical parse e.kind e.id v)

/-- The inner loop of `compute_chain`. -/
def chainEntity (s : List Digest × Digest) (e : ExportedEntity) : List Digest × Digest :=
  let header := hashDomain sha headerDomain (entityHeaderCanonical e)
  e.versions.foldl (fun s v =>
    let leaf := versionLeaf parse sha e v
    (s.1 ++ [leaf], fold sha s.2 leaf)) (s.1, fold sha s.2 header)

/-- `compute_chain`: the hashes of the versions and the root. -/
def computeChain (metadata : ExportMetadata) (entities : List ExportedEntity) : List Digest × Digest :=
  entities.foldl (chainEntity parse sha) ([], hashDomain sha rootDomain (metadataCanonical metadata))

/-! ### Verification -/

inductive AuditError where
  | unsupportedFormat (found expected : ℕ)
  | contentTampered (message : String)
  | chainRootMismatch
  | completenessMismatch (message : String)
  | invalidPublicKey (message : String)
  | keyMismatch
  | signatureInvalid (message : String)

/-- Ed25519, from outside. -/
structure SignatureScheme where
  Key : Type
  fromBytes : List UInt8 → Except String Key
  asBytes : Key → List UInt8
  verify : Key → Digest → List UInt8 → Except String Unit

structure AuditVerification where
  passed : Bool
  trustedKey : Bool
  databaseId : String
  entityCount : ℕ
  versionCount : ℕ
  chainRoot : String
  chainAnchorLsn : UInt64
  redactedKeys : List Text
  publicKey : String

def auditFormatVersion : ℕ := 2

def hashAlgorithm : String := "sha256-linked-v1"

def signatureAlgorithm : String := "ed25519"

def signedDescription : String := "ed25519 detached signature over chain.root"

def hexEncode (bytes : List UInt8) : String :=
  String.ofList (bytes.flatMap fun b =>
    [Provenance.hexDigit (b.toNat / 16), Provenance.hexDigit (b.toNat % 16)])

def hexTo32 (s : String) : Option Digest :=
  (hexDecode (utf8 s)).bind fun b => if h : b.toArray.size = 32 then some ⟨b.toArray, h⟩ else none

/-- `AuditPublicKey::from_hex`. -/
def publicKeyFromHex (scheme : SignatureScheme) (s : String) : Except AuditError scheme.Key :=
  match hexDecode (utf8 (trim s)) with
  | none => .error (.invalidPublicKey "not valid hex")
  | some bytes =>
    let size := bytes.length
    if size ≠ 32 then
      .error (.invalidPublicKey s!"public key must be 32 bytes, got {size}")
    else (scheme.fromBytes bytes).mapError .invalidPublicKey

def decodeSignature (s : String) : Except AuditError (List UInt8) :=
  match hexDecode (utf8 s) with
  | none => .error (.signatureInvalid "signature is not valid hex")
  | some bytes =>
    let size := bytes.length
    if size ≠ 64 then .error (.signatureInvalid s!"signature must be 64 bytes, got {size}")
    else .ok bytes

/-- The stored hashes of the versions against the recomputed ones. -/
def checkLeaves : ℕ → List (String × Digest) → Except AuditError Unit
  | _, [] => .ok ()
  | i, (stored, computed) :: rest =>
    match hexTo32 stored with
    | none => .error (.contentTampered s!"leaf {i} is not a valid hash")
    | some leaf =>
      if leaf ≠ computed then
        .error (.contentTampered s!"version leaf {i} does not match its content")
      else checkLeaves (i + 1) rest

namespace AuditExport

def versionCount (x : AuditExport) : ℕ := (x.entities.map (·.versions.length)).sum

/-- The checks that the labels of the artifact are those of this format. -/
def checkLabels (x : AuditExport) : Except AuditError Unit := do
  if x.formatVersion ≠ auditFormatVersion then
    throw (.unsupportedFormat x.formatVersion auditFormatVersion)
  if x.chain.algorithm ≠ hashAlgorithm then
    let algorithm := x.chain.algorithm
    throw (.contentTampered s!"unexpected chain algorithm '{algorithm}'")
  if x.signature.algorithm ≠ signatureAlgorithm then
    let algorithm := x.signature.algorithm
    throw (.contentTampered s!"unexpected signature algorithm '{algorithm}'")
  if x.signature.signed ≠ signedDescription then
    throw (.contentTampered "unexpected signature description")

/-- The checks of the stored hashes and counts against the recomputed ones. -/
def checkContent (x : AuditExport) (leaves : List Digest) (root : Digest) : Except AuditError Unit := do
  let declaredLeaves := x.chain.leaves.length
  let actualLeaves := leaves.length
  if declaredLeaves ≠ actualLeaves then
    throw (.completenessMismatch
      s!"artifact declares {declaredLeaves} leaves but content yields {actualLeaves}")
  checkLeaves 0 (x.chain.leaves.zip leaves)
  match hexTo32 x.chain.root with
  | none => throw (.contentTampered "chain root is not a valid hash")
  | some stored => if stored ≠ root then throw .chainRootMismatch
  let versions := x.versionCount
  let declaredVersions := x.metadata.versionCount.toNat
  if declaredVersions ≠ versions then
    throw (.completenessMismatch
      s!"metadata declares {declaredVersions} versions but {versions} are present")
  let entities := x.entities.length
  let declaredEntities := x.metadata.entityCount.toNat
  if declaredEntities ≠ entities then
    throw (.completenessMismatch
      s!"metadata declares {declaredEntities} entities but {entities} are present")

/-- The key to verify with, and whether the caller trusts it. -/
def verifyingKey (scheme : SignatureScheme) (x : AuditExport) (expected : Option scheme.Key) :
    Except AuditError (scheme.Key × Bool) := do
  let embedded ← publicKeyFromHex scheme x.signature.publicKey
  match expected with
  | some trusted =>
    if hexEncode (scheme.asBytes trusted) ≠ hexEncode (scheme.asBytes embedded) then throw .keyMismatch
    return (trusted, true)
  | none => return (embedded, false)

/-- `AuditExport::verify`. -/
def verify (scheme : SignatureScheme) (x : AuditExport) (expected : Option scheme.Key) :
    Except AuditError AuditVerification := do
  x.checkLabels
  let (leaves, root) := computeChain parse sha x.metadata x.entities
  x.checkContent leaves root
  let (key, trusted) ← verifyingKey scheme x expected
  let signature ← decodeSignature x.signature.signature
  (scheme.verify key root signature).mapError .signatureInvalid
  return ⟨true, trusted, x.metadata.databaseId.1, x.entities.length, x.versionCount, x.chain.root,
    x.metadata.chainAnchor.sourceLsn, x.metadata.redactedKeys.1, hexEncode (scheme.asBytes key)⟩

end AuditExport

end Aletheia.Audit
