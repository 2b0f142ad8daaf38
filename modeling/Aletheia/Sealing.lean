import Aletheia.KeyringErasure

/-!
# Sealing property values

`seal_map` replaces the values that a designation covers by envelopes, `unseal_map` opens the
envelopes it has the key for. An envelope is bound to its subject, the version of the key, the id of
the entity and the property key, and it opens under nothing else.
-/

namespace Aletheia.CryptoShred

/-- A stored property value: what a caller wrote, or an envelope. Bytes of a caller that only look
like an envelope are a value like any other: the cipher does not authenticate them. -/
inductive Value (β : Type) where
  | plain (value : β)
  | sealed (subject : SubjectId) (keyVersion : ℕ) (key : SubjectKey) (entity : ℕ)
      (property : String) (inner : Value β)
deriving DecidableEq

abbrev Properties (β : Type) := List (String × Value β)

/-- Node ids and edge ids are counted separately. -/
structure EntityId where
  isNode : Bool
  id : ℕ
deriving DecidableEq

def SubjectEntry.keyVersion (s : SubjectEntry) : ℕ :=
  (s.wrappedKey.map (·.keyVersion)).getD initialSubjectKeyVersion

/-- The designation of the subject covers the property. -/
def SubjectEntry.covers (s : SubjectEntry) (e : EntityId) (key : String) : Bool :=
  anyShouldSeal s.designation e.isNode e.id key

variable {β : Type}

namespace SubjectKeyring

variable (k : SubjectKeyring)

/-- The subjects that designate a property, in the order of the index. -/
def designating (e : EntityId) (key : String) : List SubjectEntry :=
  ((k.subjectsForEntity e.isNode e.id).filterMap k.get).filter (·.covers e key)

/-- The subject a property is sealed under: the first active one that designates it. One that only
erased subjects designate cannot be sealed. -/
def sealingSubject (e : EntityId) (key : String) :
    Except CryptoShredError (Option SubjectEntry) :=
  if isReservedKey key then .ok none
  else
    match (k.designating e key).find? (·.state = .active) with
    | some s => .ok (some s)
    | none =>
      match k.designating e key with
      | s :: _ => .error (.writeAfterErasure s.subjectId)
      | [] => .ok none

/-- Open one envelope; what cannot be opened is left as it is. -/
def unsealValue (mek : Mek) (entity : ℕ) (key : String) : Value β → Value β
  | .plain v => .plain v
  | .sealed s version dek boundEntity boundKey inner =>
    let unopened := .sealed s version dek boundEntity boundKey inner
    match k.get s with
    | none => unopened
    | some e =>
      if e.state = .erased then unopened
      else
        match k.dekFromGuard s mek with
        | .error _ => unopened
        | .ok (key', _) =>
          if dek = key' ∧ boundEntity = entity ∧ boundKey = key then inner else unopened

def unsealMap (mek : Mek) (entity : ℕ) (props : Properties β) : Properties β :=
  props.map fun p => (p.1, k.unsealValue mek entity p.1 p.2)

end SubjectKeyring

/-- The computations under the lock of the keyring. -/
abbrev KeyringTask := EStateM CryptoShredError SubjectKeyring

def dekFromGuard (s : SubjectId) (mek : Mek) : KeyringTask SubjectKey := fun k =>
  match k.dekFromGuard s mek with
  | .ok (key, k') => .ok key k'
  | .error err => .error err k

/-- Seal what the plan has a subject for. -/
def sealItems (mek : Mek) (e : EntityId) :
    List ((String × Value β) × Option SubjectEntry) → KeyringTask (Properties β)
  | [] => pure []
  | (p, none) :: rest => do
    let ps ← sealItems mek e rest
    return p :: ps
  | (p, some s) :: rest => do
    let dek ← dekFromGuard s.subjectId mek
    let ps ← sealItems mek e rest
    return (p.1, .sealed s.subjectId s.keyVersion dek e.id p.1 p.2) :: ps

/-- The whole map is planned before anything is sealed. -/
def sealPlan (k : SubjectKeyring) (e : EntityId) (props : Properties β) :
    Except CryptoShredError (List ((String × Value β) × Option SubjectEntry)) :=
  props.mapM fun p => (k.sealingSubject e p.1).map fun s => (p, s)

def sealMap (mek : Mek) (e : EntityId) (props : Properties β) : KeyringTask (Properties β) := do
  let k ← get
  if k.subjectsForEntity e.isNode e.id = [] then pure props
  else do
    let plan ← Exec.readE fun k => sealPlan k e props
    sealItems mek e plan

/-- `materialize_shred`: nothing is looked at while no subject was ever designated. -/
def CryptoShredState.materialize (c : CryptoShredState) (mek : Mek) (entity : ℕ)
    (props : Properties β) : Properties β :=
  if c.hasAny then c.keyring.unsealMap mek entity props else props

end Aletheia.CryptoShred
