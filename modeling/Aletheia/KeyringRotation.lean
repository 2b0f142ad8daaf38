import Aletheia.KeyringWraps

/-!
# Rotating the master key

A rotation records in a ledger which layers it has to re-key, re-keys the index, the WAL and the
cold tier, re-wraps the subject keys, marks that layer complete and removes the ledger. It may fail
at any of these steps and is then resumed, on the open handle or when the files are opened again.
Until it is closed a handle designates subjects under the master key it was opened with. Between the
steps other calls take place; rotations of one handle are made one after the other.
-/

namespace Aletheia.CryptoShred

inductive LayerStatus where
  | pending | complete | skipped
deriving DecidableEq

structure RotationLedger where
  newVersion : ℕ
  newSource : Mek
  subjectKeyring : LayerStatus
deriving DecidableEq

inductive RotationPhase where
  | writeLedger | layers | rewrap | mark | clear
deriving DecidableEq

structure Rotation where
  newSource : Mek
  newVersion : ℕ
  /-- whether the subject keys have to be re-wrapped -/
  inScope : Bool
  phase : RotationPhase
deriving DecidableEq

namespace Rotation

def ledger (r : Rotation) : RotationLedger :=
  ⟨r.newVersion, r.newSource, if r.inScope then .pending else .skipped⟩

def resume (l : RotationLedger) : Rotation :=
  ⟨l.newSource, l.newVersion, l.subjectKeyring = .pending, .layers⟩

end Rotation

structure Handle where
  /-- the master key of the configuration, the same until the handle is closed -/
  config : Mek
  /-- the current version of the index keyring -/
  version : ℕ
  /-- the open has still to finish a pending rotation -/
  opening : Bool
  rotation : Option Rotation

structure KeyedDb where
  shred : Shred
  handle : Option Handle
  ledger : Option RotationLedger
  /-- the version that the files of the other layers are stamped with -/
  version : ℕ
  /-- the master key of the files: the target of the last rotation that was finished -/
  current : Mek

inductive RotationAction where
  | designate (s : SubjectId) (targets : List DesignationTarget) (key : SubjectKey) (w : Write)
  | erase (s : SubjectId) (now : ℤ) (w : EraseWrites)
  /-- seal or unseal a value -/
  | subjectKey (s : SubjectId)
  | rotate (new : Mek)
  | resume
  | writeLedger (w : Write)
  | layers (ok : Bool)
  | rewrap (w : Write)
  | mark (w : Write)
  /-- `some`: the process crashed, after or before the ledger was removed -/
  | clear (crashed : Option Bool)
  | openFiles (mek : Mek) (now : ℤ) (save clear : Write)
  | crash

namespace KeyedDb

variable (d : KeyedDb)

def init (mek : Mek) : KeyedDb := ⟨.init, none, none, 1, mek⟩

def close : KeyedDb := { d with shred := { d.shred with process := none }, handle := none }

/-- The rotation returns an error; an open that has to finish it fails. -/
def fail (h : Handle) : KeyedDb :=
  if h.opening then d.close else { d with handle := some { h with rotation := none } }

def advance (h : Handle) (r : Rotation) (phase : RotationPhase) : KeyedDb :=
  { d with handle := some { h with rotation := some { r with phase } } }

def setLedger (l : RotationLedger) : KeyedDb := { d with ledger := some l }

def markComplete : KeyedDb :=
  { d with ledger := d.ledger.map fun l => { l with subjectKeyring := .complete } }

def finished (r : Rotation) : KeyedDb :=
  { d with ledger := none, version := r.newVersion, current := r.newSource }

def call (h : Handle) (a : Action) : Option KeyedDb :=
  if h.opening then none
  else (d.shred.step a).map fun s =>
    { d with shred := s, handle := if s.process.isSome then some h else none }

/-- The memoized cipher, or the one of the configuration. -/
def wrapCipher (h : Handle) : Mek :=
  (d.shred.process.bind CryptoShredState.wrapCipher).getD h.config

/-- The other layers can be read with this key: while a rotation is pending, with the old or the
new one. -/
def Opens (mek : Mek) : Prop := mek = d.current ∨ ∃ l ∈ d.ledger, mek = l.newSource

instance (mek : Mek) : Decidable (d.Opens mek) := inferInstanceAs (Decidable (_ ∨ _))

def openVersion : ℕ :=
  match d.ledger with
  | some l => l.newVersion - 1
  | none => d.version

def opened (mek : Mek) (s : Shred) : KeyedDb :=
  { d with
    shred := s
    handle := s.process.map fun _ =>
      ⟨mek, d.openVersion, d.ledger.isSome, d.ledger.map Rotation.resume⟩ }

def startRotation (h : Handle) (new : Mek) : KeyedDb :=
  let stale := (d.shred.process.map fun c => c.keyring.stale (h.version + 1)).getD []
  { d with handle := some { h with
    rotation := some ⟨new, h.version + 1, !stale.isEmpty, .writeLedger⟩ } }

def pass (h : Handle) (r : Rotation) (w : Write) (c : CryptoShredState) : KeyedDb :=
  let result := (rewrapKeyring h.config r.newSource r.newVersion w).run ⟨c, d.shred.files⟩
  let d' : KeyedDb := { d with shred := .settle d.shred.events result }
  if succeeded result then d'.advance h r .mark
  else if returned result then d'.fail h
  else d'.close

def rotationStep (h : Handle) (r : Rotation) (a : RotationAction) : Option KeyedDb :=
  match r.phase, a with
  | .writeLedger, .writeLedger .done => some ((d.setLedger r.ledger).advance h r .layers)
  | .writeLedger, .writeLedger .refused => some (d.fail h)
  | .writeLedger, .writeLedger (.crashed renamed) =>
    some (if renamed then (d.setLedger r.ledger).close else d.close)
  | .layers, .layers true =>
    some (d.advance { h with version := r.newVersion } r (if r.inScope then .rewrap else .clear))
  | .layers, .layers false => some (d.fail h)
  | .rewrap, .rewrap w => d.shred.process.map (d.pass h r w)
  | .mark, .mark .done => some (d.markComplete.advance h r .clear)
  | .mark, .mark .refused => some (d.fail h)
  | .mark, .mark (.crashed renamed) =>
    some (if renamed then d.markComplete.close else d.close)
  | .clear, .clear none =>
    some { d.finished r with handle := some { h with opening := false, rotation := none } }
  | .clear, .clear (some removed) => some (if removed then (d.finished r).close else d.close)
  | _, _ => none

def step (d : KeyedDb) (a : RotationAction) : Option KeyedDb :=
  match d.handle, a with
  | none, .openFiles mek now save clear =>
    if d.Opens mek then (d.shred.step (.openFiles now save clear)).map (d.opened mek) else some d
  | some h, .designate s targets key w => d.call h (.designate h.config s targets key w)
  | some h, .erase s now w => d.call h (.erase s now w)
  | some h, .subjectKey s => d.call h (.subjectKey s (d.wrapCipher h))
  | some h, .rotate new =>
    if h.opening ∨ h.rotation.isSome then none
    -- a rotation in progress and an identical key are refused
    else if d.ledger.isSome ∨ new = h.config then some d
    else some (d.startRotation h new)
  | some h, .resume =>
    if h.opening ∨ h.rotation.isSome then none
    else some { d with handle := some { h with rotation := d.ledger.map Rotation.resume } }
  | some _, .crash => some d.close
  | some h, a => h.rotation.bind fun r => d.rotationStep h r a
  | _, _ => none

end KeyedDb

/-! ### What a rotation has to keep -/

/-- The wrapped key of an active subject unwraps under the master key to the key that values of the
subject were sealed with. -/
def Unwraps (mek : Mek) (events : List Event) (e : SubjectEntry) : Prop :=
  ∃ w key, e.wrappedKey = some w ∧ decrypt mek w.wrapped (e.subjectId, w.keyVersion) = some key ∧
    ∀ v, .used e.subjectId v ∈ events → v = key

namespace KeyedDb

def Settled (d : KeyedDb) : Prop :=
  d.ledger = none ∧ ∀ h ∈ d.handle, ∀ r ∈ h.rotation, r.phase = .writeLedger

/-- The process that is open, or any that the files can be opened as. -/
def Processes (d : KeyedDb) (c : CryptoShredState) (files : Files) : Prop :=
  (d.shred.process = some c ∧ d.shred.files = files) ∨
  (d.shred.process = none ∧ ∃ now save clear u, openFiles d.shred.files now save clear =
    .ok u ⟨c, files⟩)

structure KeepsReadable (d : KeyedDb) : Prop where
  /-- Once no rotation is pending, every active subject can be read with the new key. -/
  readable : d.Settled → ∀ c files, d.Processes c files →
    ∀ e ∈ c.keyring.entries, e.state = .active → Unwraps d.current d.shred.events e
  /-- No erased subject regains a key. -/
  gone : ∀ s, .erased s ∈ d.shred.events → ∀ c files, d.Processes c files → Gone c s
  /-- A pending pass can be completed with both keys. -/
  completable : ∀ l ∈ d.ledger, l.subjectKeyring = .pending → ∀ c files, d.Processes c files →
    ∃ n y, (rewrapKeyring d.current l.newSource l.newVersion .done).run ⟨c, files⟩ = .ok n y

/-! ### The condition -/

/-- A new subject will be re-wrapped if it has to be: no rotation was finished since the handle was
opened, and none is under way, or one that has still to pass over the subject keys. -/
def TakesNew (d : KeyedDb) (h : Handle) : Prop :=
  h.config = d.current ∧
    match h.rotation with
    | some r => r.inScope ∧ (r.phase = .writeLedger ∨ r.phase = .layers ∨ r.phase = .rewrap)
    | none => ∀ l ∈ d.ledger, l.subjectKeyring = .pending

def ends (h : Handle) : RotationAction → Bool
  | .designate _ _ _ w => w.crashes
  | .erase _ _ w => w.crashes
  | .subjectKey _ | .rotate _ | .resume | .openFiles _ _ _ _ => false
  | .writeLedger w => w.crashes || h.opening
  | .layers ok => !ok && h.opening
  | .rewrap w | .mark w => w.crashes || h.opening
  | .clear crashed => crashed.isSome
  | .crash => true

/-- The condition of the action itself. -/
def Allows (d : KeyedDb) (h : Handle) (c : CryptoShredState) : RotationAction → Prop
  | .designate s _ _ _ => c.keyring.get s = none → d.TakesNew h
  | .erase s _ _ => (c.keyring.get s).any (·.state = .active) → Flushed ⟨c, d.shred.files⟩
  | .rotate new => d.ledger = none ∧ new ≠ h.config → h.config = d.current
  | .rewrap _ => ∀ r ∈ h.rotation, StaleInMemory r.newVersion ⟨c, d.shred.files⟩
  | _ => True

def Proper (d : KeyedDb) (a : RotationAction) : Prop :=
  ∀ h ∈ d.handle, ∀ c ∈ d.shred.process,
    (ends h a → Saved ⟨c, d.shred.files⟩) ∧ d.Allows h c a

instance (d : KeyedDb) (h : Handle) : Decidable (d.TakesNew h) := by
  unfold TakesNew
  cases h.rotation <;> infer_instance

instance (d : KeyedDb) (h : Handle) (c : CryptoShredState) (a : RotationAction) :
    Decidable (d.Allows h c a) := by
  cases a <;> unfold Allows <;> infer_instance

instance (d : KeyedDb) (a : RotationAction) : Decidable (d.Proper a) :=
  inferInstanceAs (Decidable (∀ h ∈ d.handle, _))

end KeyedDb

end Aletheia.CryptoShred
