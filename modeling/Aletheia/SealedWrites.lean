import Aletheia.Sealing

/-!
# Write transactions on a database with designated subjects

Transactions buffer whole property maps, built from what the buffer or current storage holds, which
may already be sealed. At commit each buffered map goes through `seal_map`, one after the other, if
the transaction got a sealing context when it began; then the log, the history and current storage
get the buffer. Designations and erasures may come between any two steps.

Which versions of an entity an update carries forward or re-asserts depends on valid times and is
left open here, and so is which commits the conflict checks refuse: a refused commit is a
transaction that is rolled back.
-/

namespace Aletheia.CryptoShred

variable {β : Type}

/-! ### Property maps -/

namespace Properties

def remove (m : Properties β) (key : String) : Properties β := m.filter fun p => p.1 ≠ key

def insert (m : Properties β) (key : String) (v : Value β) : Properties β :=
  m.remove key ++ [(key, v)]

/-- The entries of `patch` go over those of `m`. -/
def merge (m patch : Properties β) : Properties β :=
  patch.foldl (fun m p => insert m p.1 p.2) m

end Properties

/-! ### Buffered writes -/

inductive PropertyWrite (β : Type) where
  | create (e : EntityId) (properties : Properties β)
  /-- updates, replacements, removals and compare-and-sets; the last expect a number of versions -/
  | update (e : EntityId) (properties : Properties β) (expected : Option ℕ)
  | delete (e : EntityId)
  | retract (e : EntityId)
deriving DecidableEq

namespace PropertyWrite

def entity : PropertyWrite β → EntityId
  | .create e _ | .update e _ _ | .delete e | .retract e => e

def properties? : PropertyWrite β → Option (Properties β)
  | .create _ m | .update _ m _ => some m
  | .delete _ | .retract _ => none

def setProperties (w : PropertyWrite β) (m : Properties β) : PropertyWrite β :=
  match w with
  | .create e _ => .create e m
  | .update e _ expected => .update e m expected
  | .delete e => .delete e
  | .retract e => .retract e

end PropertyWrite

inductive TxPhase where
  | active
  /-- in `seal_buffer`, or past it: the writes before `done` went through it -/
  | sealing (done : ℕ)
  | closed
deriving DecidableEq

structure WriteTx (β : Type) where
  /-- the cipher of the sealing context -/
  context : Option Mek
  buffer : List (PropertyWrite β)
  phase : TxPhase
deriving DecidableEq

/-! ### The stores -/

structure EntityState (β : Type) where
  current : Option (Properties β)
  /-- the versions of the history with the tombstones, newest first -/
  versions : List (Properties β)
deriving DecidableEq

/-- The earlier versions that an update carries forward and re-asserts. -/
structure Choice where
  carry : Option ℕ
  reassert : Option ℕ
deriving DecidableEq

/-- What the application of one write stores. -/
structure Applied (β : Type) where
  state : EntityState β
  logged : Option (Properties β)
  appended : List (Properties β)

namespace EntityState

variable (st : EntityState β)

def version (i : Option ℕ) : Option (Properties β) := i.bind fun i => st.versions[i]?

/-- After a backfill current storage gets the re-asserted head, else the new version. -/
def update (m : Properties β) (choice : Choice) : Applied β :=
  let appended := (st.version choice.reassert).toList ++ m :: (st.version choice.carry).toList
  ⟨⟨some ((st.version choice.reassert).getD m), appended ++ st.versions⟩, some m, appended⟩

/-- The closing version of a delete or a retraction holds the properties of the current entry. -/
def close : Applied β :=
  match st.current with
  | some m => ⟨⟨none, m :: st.versions⟩, none, [m]⟩
  | none => ⟨st, none, []⟩

def apply (w : PropertyWrite β) (choice : Choice) : Applied β :=
  match w with
  | .create _ m => ⟨⟨some m, m :: st.versions⟩, some m, [m]⟩
  | .update _ m _ => st.update m choice
  | .delete _ | .retract _ => st.close

end EntityState

structure PropertyStore (β : Type) where
  entities : EntityId → EntityState β
  txs : List (WriteTx β)

namespace PropertyStore

variable (st : PropertyStore β)

def putTx (t : ℕ) (tx : WriteTx β) : PropertyStore β := { st with txs := st.txs.set t tx }

def setPhase (t : ℕ) (tx : WriteTx β) (phase : TxPhase) : PropertyStore β :=
  st.putTx t { tx with phase := phase }

/-- `read_own_node` / `read_own_edge`. -/
def readOwn (tx : WriteTx β) (e : EntityId) : Option (Properties β) :=
  match tx.buffer.reverse.find? fun w => w.entity = e with
  | some w => w.properties?
  | none => (st.entities e).current

/-- No version of the entity exists and nothing is buffered for it. -/
def fresh (e : EntityId) : Bool :=
  (st.entities e).versions.isEmpty && (st.entities e).current.isNone &&
    st.txs.all fun tx => tx.buffer.all fun w => w.entity ≠ e

/-- The transaction that is `t`, if it is in the given phase. -/
def inPhase (t : ℕ) (phase : TxPhase) : Option (WriteTx β) :=
  (st.txs[t]?).filter fun tx => tx.phase = phase

end PropertyStore

/-! ### Requests -/

inductive PropertyRequest (β : Type) where
  /-- under an id from the generator -/
  | create (e : EntityId) (properties : Properties β)
  | update (e : EntityId) (properties : Properties β)
  | replace (e : EntityId) (properties : Properties β)
  | removeProperty (e : EntityId) (key : String)
  | compareAndSet (e : EntityId) (expected : ℕ) (properties : Properties β)
  | delete (e : EntityId)
  | retract (e : EntityId)
deriving DecidableEq

/-- The write that a request buffers, if it is accepted and does anything. -/
def PropertyRequest.write (st : PropertyStore β) (tx : WriteTx β) :
    PropertyRequest β → Option (PropertyWrite β)
  | .create e m => if st.fresh e then some (.create e m) else none
  | .update e patch => (st.readOwn tx e).map fun m => .update e (Properties.merge m patch) none
  | .replace e m => (st.readOwn tx e).map fun _ => .update e m none
  | .removeProperty e key =>
    ((st.readOwn tx e).filter fun m => m.any fun p => p.1 = key).map fun m =>
      .update e (Properties.remove m key) none
  | .compareAndSet e expected m => (st.readOwn tx e).map fun _ => .update e m (some expected)
  | .delete e => (st.readOwn tx e).map fun _ => .delete e
  | .retract e => (st.readOwn tx e).map fun _ => .retract e

namespace PropertyStore

variable (st : PropertyStore β)

def begin (context : Option Mek) : PropertyStore β :=
  { st with txs := st.txs ++ [⟨context, [], .active⟩] }

/-- A request that is refused leaves the transaction as it is. -/
def request (t : ℕ) (r : PropertyRequest β) : Option (PropertyStore β) :=
  (st.inPhase t .active).map fun tx =>
    match r.write st tx with
    | some w => st.putTx t { tx with buffer := tx.buffer ++ [w] }
    | none => st

def rollback (t : ℕ) : Option (PropertyStore β) :=
  (st.txs[t]?).bind fun tx => if tx.phase = .closed then none else some (st.setPhase t tx .closed)

/-- The versions that the compare-and-sets expect are there. -/
def preconditions (tx : WriteTx β) : Bool :=
  tx.buffer.all fun
    | .update e _ (some expected) => (st.entities e).versions.length = expected
    | _ => true

def applyWrite (w : PropertyWrite β) (choice : Choice) : PropertyStore β :=
  { st with
    entities := Function.update st.entities w.entity ((st.entities w.entity).apply w choice).state }

/-- Apply the writes in order, each with the versions it carries forward and re-asserts. -/
def applyAll (st : PropertyStore β) : List (PropertyWrite β × Choice) → PropertyStore β
  | [] => st
  | (w, choice) :: rest => applyAll (st.applyWrite w choice) rest

/-- The transaction that may be applied: all its writes went through `seal_buffer`. -/
def sealedTx (t : ℕ) : Option (WriteTx β) :=
  (st.txs[t]?).filter fun tx => tx.phase = .sealing tx.buffer.length

/-- The log, the history and current storage get the buffer, under the commit clock. -/
def apply (t : ℕ) (choices : List Choice) : Option (PropertyStore β) :=
  (st.sealedTx t).bind fun tx =>
    if choices.length = tx.buffer.length then
      let closed := st.setPhase t tx .closed
      some (if st.preconditions tx then closed.applyAll (tx.buffer.zip choices) else closed)
    else none

end PropertyStore

/-! ### The database -/

/-- A write as it was stored, with the keyring and the accepted designations of that moment. -/
structure StoredWrite (β : Type) where
  entity : EntityId
  logged : Option (Properties β)
  appended : List (Properties β)
  current : Option (Properties β)
  keyring : SubjectKeyring
  designated : List DesignationTarget

structure SealDb (β : Type) where
  world : World
  /-- the targets for which `designate_subject` has returned `Ok` -/
  designated : List DesignationTarget
  store : PropertyStore β
  /-- every write that was stored -/
  stored : List (StoredWrite β)

inductive SealAction (β : Type) where
  | designate (s : SubjectId) (targets : List DesignationTarget) (key : SubjectKey) (w : Write)
  | erase (s : SubjectId) (now : ℤ) (w : EraseWrites)
  | begin
  | request (t : ℕ) (r : PropertyRequest β)
  | commit (t : ℕ)
  | sealNext (t : ℕ)
  | apply (t : ℕ) (choices : List Choice)
  | rollback (t : ℕ)
deriving DecidableEq

namespace SealDb

variable (d : SealDb β)

def keyring : SubjectKeyring := d.world.state.keyring

/-- A call on the keyring. A crash ends the run. -/
def call {α : Type} (x : Task α) (onOk : List DesignationTarget) : Option (SealDb β) :=
  match x.run d.world with
  | .ok _ world => some { d with world := world, designated := onOk ++ d.designated }
  | .error (.failed _) world => some { d with world := world }
  | .error .crashed _ => none

/-- `sealing_context`: none while the gate says that no subject is active. -/
def sealingContext (mek : Mek) : Option Mek := if d.world.state.hasActive then some mek else none

/-- One round of `seal_buffer`. -/
def sealWrite (context : Option Mek) (w : PropertyWrite β) : KeyringTask (PropertyWrite β) :=
  match context, w.properties? with
  | some mek, some m => do
    let m ← sealMap mek w.entity m
    return w.setProperties m
  | _, _ => pure w

def sealStep (t : ℕ) (tx : WriteTx β) (n : ℕ) (w : PropertyWrite β) : SealDb β :=
  match (sealWrite tx.context w).run d.keyring with
  | .ok w' k =>
    { d with
      world := d.world.setKeyring k
      store := d.store.putTx t ⟨tx.context, tx.buffer.set n w', .sealing (n + 1)⟩ }
  | .error _ k =>
    { d with world := d.world.setKeyring k, store := d.store.setPhase t tx .closed }

/-- The next write of a transaction in `seal_buffer`. -/
def sealNext (t : ℕ) : Option (SealDb β) :=
  (d.store.txs[t]?).bind fun tx =>
    match tx.phase with
    | .sealing n => (tx.buffer[n]?).map fun w => d.sealStep t tx n w
    | _ => none

def record (st : PropertyStore β) (w : PropertyWrite β) (choice : Choice) : StoredWrite β :=
  let a := (st.entities w.entity).apply w choice
  ⟨w.entity, a.logged, a.appended, a.state.current, d.keyring, d.designated⟩

def records (st : PropertyStore β) : List (PropertyWrite β × Choice) → List (StoredWrite β)
  | [] => []
  | (w, choice) :: rest => records (st.applyWrite w choice) rest ++ [d.record st w choice]

def apply (t : ℕ) (choices : List Choice) : Option (SealDb β) :=
  (d.store.sealedTx t).bind fun tx =>
    (d.store.apply t choices).map fun st =>
      { d with
        store := st
        stored := (if d.store.preconditions tx then
          d.records (d.store.setPhase t tx .closed) (tx.buffer.zip choices) else []) ++ d.stored }

def withStore (st : PropertyStore β) : SealDb β := { d with store := st }

def step (mek : Mek) (d : SealDb β) : SealAction β → Option (SealDb β)
  | .designate s targets key w => d.call (designate mek s targets key w) targets
  | .erase s now w => d.call (erase s now w) []
  | .begin => some (d.withStore (d.store.begin (d.sealingContext mek)))
  | .request t r => (d.store.request t r).map d.withStore
  | .commit t => (d.store.inPhase t .active).map fun tx =>
      d.withStore (d.store.setPhase t tx (.sealing 0))
  | .sealNext t => d.sealNext t
  | .apply t choices => d.apply t choices
  | .rollback t => (d.store.rollback t).map d.withStore

def init : SealDb β where
  world := ⟨.load [], ⟨[], none⟩⟩
  designated := []
  store := ⟨fun _ => ⟨none, []⟩, []⟩
  stored := []

def commitOne (t : ℕ) : List (SealAction β) := [.commit t, .sealNext t, .apply t [⟨none, none⟩]]

end SealDb

end Aletheia.CryptoShred
