import Mathlib.Data.Int.Notation
import Aletheia.Exec
import Aletheia.Machine

/-!
# The subject keyring

Personal data is sealed under a random key of its subject. The keyring holds the keys, wrapped under
a cipher derived from the master key, in memory and in a file; erasing a subject removes its key
from both. A breadcrumb file names the subject whose erasure is in progress.

The authenticated cipher is idealised: a ciphertext opens under the key and the associated data it
was made with and under nothing else.
-/

namespace Aletheia.CryptoShred

structure Ciphertext (κ α π : Type) where
  key : κ
  aad : α
  plaintext : π
deriving DecidableEq

section Cipher

variable {κ α π : Type} [DecidableEq κ] [DecidableEq α]

def encrypt (key : κ) (plaintext : π) (aad : α) : Ciphertext κ α π := ⟨key, aad, plaintext⟩

def decrypt (key : κ) (c : Ciphertext κ α π) (aad : α) : Option π :=
  if c.key = key ∧ c.aad = aad then some c.plaintext else none

@[simp] lemma decrypt_encrypt (key : κ) (plaintext : π) (aad : α) :
    decrypt key (encrypt key plaintext aad) aad = some plaintext := by
  simp [decrypt, encrypt]

end Cipher

abbrev SubjectId := String

/-- A master key, with the subject-wrapping cipher derived from it. -/
abbrev Mek := ℕ

abbrev SubjectKey := ℕ

inductive CryptoShredError where
  | notDesignated (subjectId : SubjectId)
  | subjectErased (subjectId : SubjectId)
  | writeAfterErasure (subjectId : SubjectId)
  /-- the authentication check of the cipher failed -/
  | crypto
  | io (message : String)
deriving DecidableEq

/-! ### Designations -/

inductive DesignationTarget where
  | wholeNode (id : ℕ)
  | wholeEdge (id : ℕ)
  | nodeProperties (id : ℕ) (keys : List String)
  | edgeProperties (id : ℕ) (keys : List String)
deriving DecidableEq

def reservedKeyPrefixes : List String := ["__aletheia_", "__shred_"]

def isReservedKey (key : String) : Bool :=
  reservedKeyPrefixes.any fun p => p.toList.isPrefixOf key.toList

namespace DesignationTarget

def entityId : DesignationTarget → ℕ
  | .wholeNode id | .wholeEdge id | .nodeProperties id _ | .edgeProperties id _ => id

def isNode : DesignationTarget → Bool
  | .wholeNode _ | .nodeProperties _ _ => true
  | .wholeEdge _ | .edgeProperties _ _ => false

def shouldSealKey (target : DesignationTarget) (isNode : Bool) (entity : ℕ) (key : String) : Bool :=
  if isReservedKey key then false
  else
    match target with
    | .wholeNode id => isNode && id = entity
    | .wholeEdge id => !isNode && id = entity
    | .nodeProperties id keys => isNode && id = entity && key ∈ keys
    | .edgeProperties id keys => !isNode && id = entity && key ∈ keys

end DesignationTarget

def anyShouldSeal (targets : List DesignationTarget) (isNode : Bool) (entity : ℕ) (key : String) :
    Bool :=
  targets.any fun t => t.shouldSealKey isNode entity key

/-- Add the targets that are not there yet. -/
def mergeTargets (old new : List DesignationTarget) : List DesignationTarget :=
  new.foldl (fun merged t => if t ∈ merged then merged else merged ++ [t]) old

/-! ### Entries -/

inductive SubjectState where
  | active | erased
deriving DecidableEq

def initialSubjectKeyVersion : ℕ := 1

/-- A data key, encrypted under the master key and bound to its subject and version. -/
structure WrappedKey where
  keyVersion : ℕ
  wrapped : Ciphertext Mek (SubjectId × ℕ) SubjectKey
deriving DecidableEq

/-- The signed proof of an erasure. -/
structure ErasureAttestation where
  subjectId : SubjectId
  entityCount : ℕ
  timestampMicros : ℤ
deriving DecidableEq

structure SubjectEntry where
  subjectId : SubjectId
  wrappedKey : Option WrappedKey
  designation : List DesignationTarget
  state : SubjectState
  erasedAtMicros : Option ℤ
  attestation : Option ErasureAttestation
deriving DecidableEq

/-- The entries of a keyring or of its file, as a map by subject. -/
def lookup (s : SubjectId) : List SubjectEntry → Option SubjectEntry
  | [] => none
  | e :: es => if e.subjectId = s then some e else lookup s es

def insert (e : SubjectEntry) : List SubjectEntry → List SubjectEntry
  | [] => [e]
  | d :: es => if d.subjectId = e.subjectId then e :: es else d :: insert e es

structure SubjectKeyring where
  entries : List SubjectEntry
  /-- unwrapped keys -/
  cache : SubjectId → Option SubjectKey
  /-- the subjects that designate a node (`true`) or an edge, in the order in which they came -/
  designationIndex : Bool → ℕ → List SubjectId

namespace SubjectKeyring

variable (k : SubjectKeyring) (s : SubjectId)

def get : Option SubjectEntry := lookup s k.entries

def anyActive : Bool := k.entries.any fun e => e.state = .active

def indexTarget (s : SubjectId) (index : Bool → ℕ → List SubjectId) (t : DesignationTarget) :
    Bool → ℕ → List SubjectId := fun isNode id =>
  if isNode = t.isNode ∧ id = t.entityId ∧ s ∉ index isNode id then index isNode id ++ [s]
  else index isNode id

def indexEntry (index : Bool → ℕ → List SubjectId) (e : SubjectEntry) :
    Bool → ℕ → List SubjectId :=
  e.designation.foldl (indexTarget e.subjectId) index

def upsert (e : SubjectEntry) : SubjectKeyring :=
  { k with
    entries := insert e k.entries
    designationIndex := indexEntry k.designationIndex e }

def subjectsForEntity (isNode : Bool) (entity : ℕ) : List SubjectId :=
  k.designationIndex isNode entity

def cacheKey (key : SubjectKey) : SubjectKeyring :=
  { k with cache := Function.update k.cache s (some key) }

def modifyEntry (f : SubjectEntry → SubjectEntry) : SubjectKeyring :=
  match k.get s with
  | some e => { k with entries := insert (f e) k.entries }
  | none => k

def dropCache : SubjectKeyring := { k with cache := Function.update k.cache s none }

def eraseInMemory (erasedAt : ℤ) (attestation : ErasureAttestation) : SubjectKeyring :=
  (k.dropCache s).modifyEntry s fun e =>
    { e with
      wrappedKey := none
      state := .erased
      erasedAtMicros := some erasedAt
      attestation := some attestation }

/-- A subject named by the breadcrumb counts as erased whatever the keyring says. -/
def forceErased (erasedAt : ℤ) : SubjectKeyring :=
  let k := k.dropCache s
  match k.get s with
  | some e =>
    { k with
      entries := insert
        { e with
          wrappedKey := none
          state := .erased
          erasedAtMicros := some (e.erasedAtMicros.getD erasedAt) }
        k.entries }
  | none => { k with entries := insert ⟨s, none, [], .erased, some erasedAt, none⟩ k.entries }

def load (entries : List SubjectEntry) : SubjectKeyring where
  entries := entries
  cache := fun _ => none
  designationIndex := entries.foldl indexEntry fun _ _ => []

/-- `designate`, up to the write: a new subject gets a key wrapped under the cipher at hand. -/
def designate (mek : Mek) (targets : List DesignationTarget) (key : SubjectKey) :
    Except CryptoShredError SubjectKeyring :=
  match k.get s with
  | some existing =>
    if existing.state = .erased then .error (.subjectErased s)
    else .ok (k.upsert
      { existing with designation := mergeTargets existing.designation targets })
  | none =>
    let wrapped := encrypt mek key (s, initialSubjectKeyVersion)
    .ok ((k.upsert
      ⟨s, some ⟨initialSubjectKeyVersion, wrapped⟩, mergeTargets [] targets, .active, none, none⟩)
      |>.cacheKey s key)

/-- The key of a subject, from the cache or by unwrapping it. -/
def dekFromGuard (mek : Mek) : Except CryptoShredError (SubjectKey × SubjectKeyring) :=
  match k.cache s with
  | some key => .ok (key, k)
  | none =>
    match k.get s with
    | none => .error (.notDesignated s)
    | some e =>
      if e.state = .erased then .error (.subjectErased s)
      else
        match e.wrappedKey with
        | none => .error (.subjectErased s)
        | some w =>
          match decrypt mek w.wrapped (s, w.keyVersion) with
          | none => .error .crypto
          | some key => .ok (key, k.cacheKey s key)

end SubjectKeyring

namespace SubjectKeyring

/-- Unwrap under the old cipher and wrap under the new one; other entries are kept. -/
def rewrapEntry (old new : Mek) (version : ℕ) (e : SubjectEntry) :
    Except CryptoShredError SubjectEntry :=
  if e.state = .erased then .ok e
  else
    match e.wrappedKey with
    | none => .ok e
    | some w =>
      if version ≤ w.keyVersion then .ok e
      else
        match decrypt old w.wrapped (e.subjectId, w.keyVersion) with
        | none => .error .crypto
        | some key =>
          .ok { e with wrappedKey := some ⟨version, encrypt new key (e.subjectId, version)⟩ }

/-- The entries the pass has to re-wrap. -/
def stale (version : ℕ) (k : SubjectKeyring) : List SubjectEntry :=
  k.entries.filter fun e =>
    e.state = .active && (e.wrappedKey.map fun w => decide (w.keyVersion < version)).getD false

/-- `rewrap_keyring`, up to the write: nothing changes unless every entry can be re-wrapped. -/
def rewrap (k : SubjectKeyring) (old new : Mek) (version : ℕ) :
    Except CryptoShredError SubjectKeyring :=
  (k.entries.mapM (rewrapEntry old new version)).map fun entries => { k with entries }

end SubjectKeyring

/-! ### The durable calls -/

structure CryptoShredState where
  keyring : SubjectKeyring
  hasActive : Bool
  hasAny : Bool
  /-- the memoized subject-wrapping cipher -/
  wrapCipher : Option Mek

namespace CryptoShredState

def refreshGates (c : CryptoShredState) : CryptoShredState :=
  { c with hasActive := c.keyring.anyActive, hasAny := !c.keyring.entries.isEmpty }

def load (entries : List SubjectEntry) : CryptoShredState :=
  refreshGates ⟨.load entries, false, false, none⟩

end CryptoShredState

structure Files where
  /-- the entries of the keyring file; a missing file is an empty keyring -/
  keyring : List SubjectEntry
  breadcrumb : Option SubjectId

/-- What becomes of a write. It replaces the file by a rename, so it is done or not done. -/
inductive Write where
  | done
  | refused
  /-- the process crashed in the write, before or after the rename -/
  | crashed (renamed : Bool)
deriving DecidableEq

/-- Why a call did not return a result. -/
inductive Stop where
  | failed (error : CryptoShredError)
  | crashed
deriving DecidableEq

/-- A process and the files it writes to. -/
structure World where
  state : CryptoShredState
  files : Files

abbrev Task := EStateM Stop World

namespace World

variable (x : World)

def setKeyring (k : SubjectKeyring) : World := { x with state := { x.state with keyring := k } }

def refreshGates : World := { x with state := x.state.refreshGates }

def saved : World := { x with files := { x.files with keyring := x.state.keyring.entries } }

def setBreadcrumb (b : Option SubjectId) : World :=
  { x with files := { x.files with breadcrumb := b } }

end World

/-- A durable write with the given effect on the files. -/
def writeDurable (effect : World → World) (error : CryptoShredError) (w : Write) : Task Unit :=
  fun x =>
    match w with
    | .done => .ok () (effect x)
    | .refused => .error (.failed error) x
    | .crashed renamed => .error .crashed (if renamed then effect x else x)

def saveKeyring : Write → Task Unit := writeDurable World.saved (.io "keyring write failed")

def writeBreadcrumb (s : SubjectId) : Write → Task Unit :=
  writeDurable (·.setBreadcrumb (some s)) (.io "breadcrumb write failed")

/-- A breadcrumb that cannot be removed is logged and left. -/
def clearBreadcrumb (w : Write) : Task Unit := fun x =>
  match w with
  | .done => .ok () (x.setBreadcrumb none)
  | .refused => .ok () x
  | .crashed removed => .error .crashed (if removed then x.setBreadcrumb none else x)

def updateKeyring (f : SubjectKeyring → Except CryptoShredError SubjectKeyring) : Task Unit :=
  Exec.modifyE fun x =>
    match f x.state.keyring with
    | .ok k => .ok (x.setKeyring k)
    | .error e => .error (.failed e)

/-- The gates are refreshed only after a successful write. -/
def designate (mek : Mek) (s : SubjectId) (targets : List DesignationTarget) (key : SubjectKey)
    (w : Write) : Task Unit := do
  updateKeyring fun k => k.designate s mek targets key
  saveKeyring w
  modify World.refreshGates

structure EraseWrites where
  breadcrumb : Write
  keyring : Write
  clear : Write
deriving DecidableEq

/-- An erased subject: the recorded attestation, or a new one for a recovered tombstone. -/
def eraseAgain (e : SubjectEntry) (now : ℤ) (w : Write) : Task ErasureAttestation :=
  match e.attestation with
  | some a => pure a
  | none => do
    let a : ErasureAttestation :=
      ⟨e.subjectId, e.designation.length, e.erasedAtMicros.getD now⟩
    modify fun x => x.setKeyring (x.state.keyring.upsert { e with attestation := some a })
    saveKeyring w
    pure a

/-- The breadcrumb is on disk before the key goes from memory, and cleared after the file is
rewritten. -/
def eraseActive (e : SubjectEntry) (now : ℤ) (w : EraseWrites) : Task ErasureAttestation := do
  writeBreadcrumb e.subjectId w.breadcrumb
  let a : ErasureAttestation := ⟨e.subjectId, e.designation.length, now⟩
  modify fun x =>
    (x.setKeyring (x.state.keyring.eraseInMemory e.subjectId now a)).refreshGates
  saveKeyring w.keyring
  clearBreadcrumb w.clear
  pure a

def erase (s : SubjectId) (now : ℤ) (w : EraseWrites) : Task ErasureAttestation := do
  let x ← get
  match x.state.keyring.get s with
  | none => throw (.failed (.notDesignated s))
  | some e => if e.state = .erased then eraseAgain e now w.keyring else eraseActive e now w

/-- The keyring is written only if an entry was re-wrapped; the memoized cipher is replaced in any
case. -/
def rewrapKeyring (old new : Mek) (version : ℕ) (w : Write) : Task ℕ := do
  let x ← get
  updateKeyring fun k => k.rewrap old new version
  let rewrapped := (x.state.keyring.stale version).length
  Exec.onlyIf (0 < rewrapped) (saveKeyring w)
  modify fun x => { x with state := { x.state with wrapCipher := some new } }
  pure rewrapped

def subjectKey (s : SubjectId) (mek : Mek) : Task SubjectKey := fun x =>
  match x.state.keyring.dekFromGuard s mek with
  | .ok (key, k) => .ok key (x.setKeyring k)
  | .error e => .error (.failed e) x

/-- Finish the erasure the breadcrumb names. -/
def recoverFromBreadcrumb (now : ℤ) (save clear : Write) : Task Unit := do
  let x ← get
  match x.files.breadcrumb with
  | none => pure ()
  | some s => do
    modify fun x => x.setKeyring (x.state.keyring.forceErased s now)
    saveKeyring save
    modify World.refreshGates
    clearBreadcrumb clear

def openFiles (files : Files) (now : ℤ) (save clear : Write) : EStateM.Result Stop World Unit :=
  (recoverFromBreadcrumb now save clear).run ⟨.load files.keyring, files⟩

end Aletheia.CryptoShred
