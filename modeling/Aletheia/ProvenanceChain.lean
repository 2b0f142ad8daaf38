import Mathlib.Data.List.Lex
import Mathlib.Data.Prod.Lex
import Aletheia.Canonical

/-!
# The provenance hash chain

Each committed transaction is sealed as a record: a leaf hash for each version it wrote, and a digest
that folds the transaction onto its predecessor in the order of the commit timestamps. Verification
recomputes the leaves from the stored versions and folds them again, or folds the records up to an
anchor that was exported earlier.
-/

namespace Aletheia.Provenance

open ByteCode

abbrev Digest := Vector UInt8 32

/-! ### What is hashed -/

inductive EntityKind where
  | node
  | edge
deriving DecidableEq, Repr

def EntityKind.tag : EntityKind → UInt8
  | node => 0
  | edge => 1

structure ProvenanceHashInput where
  source : Option Text
  /-- a float -/
  confidence : Option (BitVec 64)
  note : Option Text
  correlationId : Option Text
  principal : Option Text

structure VersionHashInput where
  entityKind : EntityKind
  entityId : UInt64
  versionId : UInt64
  prevVersionId : Option UInt64
  label : Text
  source : Option UInt64
  target : Option UInt64
  validFrom : Option Int64
  validTo : Option Int64
  transactionFrom : Option Int64
  transactionTo : Option Int64
  isCurrent : Bool
  isTombstone : Bool
  provenance : Option ProvenanceHashInput
  properties : Vec (Text × StoredValue)

namespace Canon

open Aletheia.Canon

def provenance (p : ProvenanceHashInput) : List UInt8 :=
  opt (fun s : Text => str s.1) p.source ++ (opt f64bits p.confidence ++
    (opt (fun s : Text => str s.1) p.note ++ (opt (fun s : Text => str s.1) p.correlationId ++
      opt (fun s : Text => str s.1) p.principal)))

def property (p : Text × StoredValue) : List UInt8 := str p.1.1 ++ value p.2.1

def sortedProperties (properties : List (Text × StoredValue)) : List (Text × StoredValue) :=
  properties.mergeSort fun a b => decide (utf8 a.1.1 ≤ utf8 b.1.1)

end Canon

open Aletheia.Canon in
def versionCanonical (input : VersionHashInput) : List UInt8 :=
  input.entityKind.tag :: (u64 input.entityId.toNat ++ (u64 input.versionId.toNat ++
    (opt (fun v : UInt64 => u64 v.toNat) input.prevVersionId ++ (str input.label.1 ++
    (opt (fun v : UInt64 => u64 v.toNat) input.source ++
    (opt (fun v : UInt64 => u64 v.toNat) input.target ++
    (opt (fun v : Int64 => i64 v.toInt) input.validFrom ++
    (opt (fun v : Int64 => i64 v.toInt) input.validTo ++
    (opt (fun v : Int64 => i64 v.toInt) input.transactionFrom ++
    (opt (fun v : Int64 => i64 v.toInt) input.transactionTo ++ (bool input.isCurrent ++
    (bool input.isTombstone ++ (opt Canon.provenance input.provenance ++
      counted Canon.property (Canon.sortedProperties input.properties.1))))))))))))))

/-! ### Digests -/

/-- An ASCII text, closed by a zero byte. -/
def domainTag (s : String) : List UInt8 := s.toList.map (fun c => UInt8.ofNat c.toNat) ++ [0]

def chainLeafDomain : List UInt8 := domainTag "aletheiadb.chain.v1.leaf"

def chainTxDomain : List UInt8 := domainTag "aletheiadb.chain.v1.tx"

def chainNodeDomain : List UInt8 := domainTag "aletheiadb.chain.v1.node"

def chainGenesisDomain : List UInt8 := domainTag "aletheiadb.chain.v1.genesis"

/-- What is hashed for a leaf, a transaction, a step of the chain, and the genesis. -/
def leafInput (input : VersionHashInput) : List UInt8 := chainLeafDomain ++ versionCanonical input

def txInput (commitTs : Int64) (commitTsLogical : UInt32) (leaves : List Digest) : List UInt8 :=
  chainTxDomain ++ (Canon.i64 commitTs.toInt ++ (Canon.u32 commitTsLogical.toNat ++
    (Canon.u64 leaves.length ++ leaves.flatMap (·.toList))))

def stepInput (prev txDigest : Digest) : List UInt8 :=
  chainNodeDomain ++ (prev.toList ++ txDigest.toList)

def genesisInput (enableLsn : UInt64) (enableTs : Int64) : List UInt8 :=
  chainGenesisDomain ++ (Canon.u64 enableLsn.toNat ++ Canon.i64 enableTs.toInt)

-- `sha` is SHA-256
variable (sha : List UInt8 → Digest)

def versionLeaf (input : VersionHashInput) : Digest := sha (leafInput input)

def txDigest (commitTs : Int64) (commitTsLogical : UInt32) (leaves : List Digest) : Digest :=
  sha (txInput commitTs commitTsLogical leaves)

def chainStep (prev txDigest : Digest) : Digest := sha (stepInput prev txDigest)

def genesisDigest (enableLsn : UInt64) (enableTs : Int64) : Digest :=
  sha (genesisInput enableLsn enableTs)

/-! ### Records -/

abbrev VersionRef := EntityKind × UInt64 × UInt64

structure ChainTxRecord where
  seq : ℕ
  commitTs : Int64
  commitTsLogical : UInt32
  txId : UInt64
  anchorLsn : UInt64
  leaves : List Digest
  entityRefs : List VersionRef
  digest : Digest
deriving DecidableEq

structure ChainHead where
  seq : ℕ
  digest : Digest
  commitTs : Int64
  anchorLsn : UInt64
  genesisDigest : Digest
deriving DecidableEq

def ChainHead.genesis (enableLsn : UInt64) (enableTs : Int64) : ChainHead :=
  let g := Provenance.genesisDigest sha enableLsn enableTs
  ⟨0, g, enableTs, enableLsn, g⟩

/-- The canonical order: by commit timestamp, then by the leaves. -/
abbrev Key := ℤ ×ₗ ℕ ×ₗ List (List ℕ)

def key (commitTs : Int64) (commitTsLogical : UInt32) (leaves : List Digest) : Key :=
  toLex (commitTs.toInt, toLex (commitTsLogical.toNat, leaves.map fun d => d.toList.map (·.toNat)))

def ChainTxRecord.key (r : ChainTxRecord) : Key :=
  Provenance.key r.commitTs r.commitTsLogical r.leaves

def canonicalOrder (records : List ChainTxRecord) : List ChainTxRecord :=
  records.mergeSort fun a b => decide (a.key ≤ b.key)

/-- The digest of the record when it follows `prev`. -/
def ChainTxRecord.foldedOn (r : ChainTxRecord) (prev : Digest) : Digest :=
  chainStep sha prev (txDigest sha r.commitTs r.commitTsLogical r.leaves)

/-! ### Sealing -/

/-- Where the content of a version comes from. -/
abbrev VersionSource := VersionRef → Option VersionHashInput

structure PendingTx where
  commitTsMicros : Int64
  commitTsLogical : UInt32
  txId : UInt64
  anchorLsn : UInt64
  entityRefs : List VersionRef

structure ChainInner where
  records : List ChainTxRecord
  head : ChainHead

def refKey (r : VersionRef) : ℕ ×ₗ ℕ ×ₗ ℕ := toLex (r.1.tag.toNat, toLex (r.2.1.toNat, r.2.2.toNat))

/-- Numbers the records and folds each onto its predecessor. -/
def refoldFrom (prev : Digest) (seq : ℕ) : List ChainTxRecord → List ChainTxRecord
  | [] => []
  | r :: rest =>
    let digest := r.foldedOn sha prev
    { r with seq := seq, digest := digest } :: refoldFrom digest (seq + 1) rest

def refoldSuffix (genesis : ChainHead) (records : List ChainTxRecord) (start : ℕ) :
    List ChainTxRecord :=
  let prev := ((records.take start).getLast?.map (·.digest)).getD genesis.digest
  records.take start ++ refoldFrom sha prev (start + 1) (records.drop start)

def headOf (genesis : ChainHead) (records : List ChainTxRecord) : ChainHead :=
  match records.getLast? with
  | some last => ⟨last.seq, last.digest, last.commitTs, last.anchorLsn, genesis.genesisDigest⟩
  | none => genesis

/-- The references that resolve, in the order of kind, entity and version, with their leaves. -/
def resolveRefs (src : VersionSource) (refs : List VersionRef) : List (VersionRef × Digest) :=
  (refs.mergeSort fun a b => decide (refKey a ≤ refKey b)).filterMap fun r =>
    (src r).map fun input => (r, versionLeaf sha input)

/-- `seal_one`. A transaction none of whose versions resolves leaves no record. -/
def sealOne (src : VersionSource) (genesis : ChainHead) (inner : ChainInner) (pending : PendingTx) :
    ChainInner :=
  let kept := resolveRefs sha src pending.entityRefs
  if kept.isEmpty then inner
  else
    let leaves := kept.map Prod.snd
    let shell : ChainTxRecord := ⟨0, pending.commitTsMicros, pending.commitTsLogical, pending.txId,
      pending.anchorLsn, leaves, kept.map Prod.fst, Vector.replicate 32 0⟩
    -- the records are in canonical order, so the smaller ones come first
    let idx := (inner.records.takeWhile fun r => decide (r.key < shell.key)).length
    let records := refoldSuffix sha genesis (inner.records.insertIdx idx shell) idx
    ⟨records, headOf genesis records⟩

/-! ### Verification -/

structure ChainVerification where
  passed : Bool
  headSeq : ℕ
  headDigestHex : String
  earliestBrokenSeq : Option ℕ
  reason : Option String
  transactionsChecked : ℕ
deriving DecidableEq, Repr

def hexDigit (n : ℕ) : Char := "0123456789abcdef".toList.getD n '0'

def toHex (d : Digest) : String :=
  String.ofList (d.toList.flatMap fun b => [hexDigit (b.toNat / 16), hexDigit (b.toNat % 16)])

def ChainVerification.broken (headSeq : ℕ) (headDigestHex : String) (seq : ℕ) (reason : String)
    (checked : ℕ) : ChainVerification :=
  ⟨false, headSeq, headDigestHex, some seq, some reason, checked⟩

/-- The leaves of the record's versions in the source. -/
def recomputeLeaves (src : VersionSource) (prev : Digest) (checked : ℕ) (r : ChainTxRecord) :
    Except ChainVerification (List Digest) :=
  r.entityRefs.mapM fun ref =>
    match src ref with
    | some input => .ok (versionLeaf sha input)
    | none =>
      let id := ref.2.1
      let vid := ref.2.2
      .error (.broken (r.seq - 1) (toHex prev) r.seq
        s!"version {vid} for entity {id} not found in source" checked)

/-- The leaves and the digest of a record that follows `prev`; gives the digest back. -/
def verifyRecord (src : VersionSource) (prev : Digest) (checked : ℕ) (r : ChainTxRecord) :
    Except ChainVerification Digest := do
  let recomputed ← recomputeLeaves sha src prev checked r
  if recomputed ≠ r.leaves then
    throw (.broken (r.seq - 1) (toHex prev) r.seq "recomputed leaf(s) differ from sealed leaves" checked)
  if chainStep sha prev (txDigest sha r.commitTs r.commitTsLogical recomputed) ≠ r.digest then
    throw (.broken (r.seq - 1) (toHex prev) r.seq
      "recomputed chain digest differs from sealed digest" checked)
  return r.digest

def verifyRecords (src : VersionSource) :
    Digest → ℕ → List ChainTxRecord → Except ChainVerification (Digest × ℕ)
  | prev, checked, [] => .ok (prev, checked)
  | prev, checked, r :: rest => do
    let digest ← verifyRecord sha src prev checked r
    verifyRecords src digest (checked + 1) rest

/-- The intervals of a version, with the record that sealed it. -/
structure Iv where
  seq : ℕ
  validFrom : Option Int64
  validTo : Option Int64
  txFrom : Option Int64
  txTo : Option Int64

def reversed : Option Int64 → Option Int64 → Bool
  | some start, some stop => stop < start
  | _, _ => false

/-- The versions of one entity in the order of the chain, after one recorded at `prevTxFrom`. -/
def checkIntervals : Option Int64 → List Iv → Option ChainVerification
  | _, [] => none
  | prevTxFrom, iv :: rest =>
    let fail (reason : String) := some (ChainVerification.broken (iv.seq - 1) "" iv.seq reason 0)
    if reversed iv.validFrom iv.validTo then
      fail "timeline inconsistency: valid_to precedes valid_from"
    else if reversed iv.txFrom iv.txTo then
      fail "timeline inconsistency: transaction_to precedes transaction_from"
    else if reversed prevTxFrom iv.txFrom then
      fail "timeline inconsistency: transaction start regressed for entity"
    else checkIntervals (iv.txFrom <|> prevTxFrom) rest

/-- The versions that the records refer to and the source has, under their entity. -/
def sealedIntervals (ordered : List ChainTxRecord) (src : VersionSource) :
    List ((ℕ ×ₗ ℕ) × Iv) :=
  ordered.flatMap fun r => r.entityRefs.filterMap fun ref => (src ref).map fun input =>
    (toLex (ref.1.tag.toNat, ref.2.1.toNat),
      ⟨r.seq, input.validFrom, input.validTo, input.transactionFrom, input.transactionTo⟩)

/-- `check_timeline_consistency`, entity by entity. -/
def checkTimelineConsistency (ordered : List ChainTxRecord) (src : VersionSource) :
    Option ChainVerification :=
  let intervals := sealedIntervals ordered src
  let entities := ((intervals.map Prod.fst).mergeSort fun a b => decide (a ≤ b)).dedup
  entities.findSome? fun entity =>
    checkIntervals none ((intervals.filter fun iv => iv.1 = entity).map Prod.snd)

def verifyFull (records : List ChainTxRecord) (src : VersionSource) (genesis : ChainHead) :
    ChainVerification :=
  let ordered := canonicalOrder records
  match verifyRecords sha src genesis.digest 0 ordered with
  | .error broken => broken
  | .ok (prev, checked) =>
    match checkTimelineConsistency ordered src with
    | some broken => broken
    | none =>
      ⟨true, (ordered.getLast?.map (·.seq)).getD genesis.seq, toHex prev, none, none, checked⟩

/-- Folds the records up to the one with the anchor's number; gives back the digest there. -/
def refoldToAnchor (anchorSeq : ℕ) :
    Digest → ℕ → List ChainTxRecord → Except ChainVerification (Option Digest × ℕ)
  | _, checked, [] => .ok (none, checked)
  | prev, checked, r :: rest =>
    let step := r.foldedOn sha prev
    if step ≠ r.digest then
      .error (.broken (r.seq - 1) (toHex prev) r.seq
        "recomputed chain digest differs from stored digest (forged/tampered log)" checked)
    else if r.seq = anchorSeq then .ok (some step, checked + 1)
    else refoldToAnchor anchorSeq r.digest (checked + 1) rest

def verifyAgainstAnchor (records : List ChainTxRecord) (genesis anchor : ChainHead) :
    ChainVerification :=
  let ordered := canonicalOrder records
  let headSeq := (ordered.getLast?.map (·.seq)).getD 0
  let headDigestHex := toHex ((ordered.getLast?.map (·.digest)).getD anchor.digest)
  let anchorSeq := anchor.seq
  if anchor.genesisDigest ≠ genesis.genesisDigest then
    .broken headSeq headDigestHex anchorSeq
      "anchor genesis digest does not match this chain's genesis (unrelated chain)" 0
  else
    match refoldToAnchor sha anchorSeq genesis.digest 0 ordered with
    | .error broken => broken
    | .ok (recomputedAtAnchor, checked) =>
      if anchorSeq = 0 then ⟨true, headSeq, headDigestHex, none, none, checked⟩
      else
        match recomputedAtAnchor with
        | none =>
          .broken headSeq headDigestHex anchorSeq
            s!"chain truncated: no record at anchor seq {anchorSeq} (rollback)" checked
        | some d =>
          if d = anchor.digest then ⟨true, headSeq, headDigestHex, none, none, checked⟩
          else
            .broken headSeq headDigestHex anchorSeq
              s!"chain diverged: recomputed digest at seq {anchorSeq} differs from anchor (fork)"
              checked

end Aletheia.Provenance
