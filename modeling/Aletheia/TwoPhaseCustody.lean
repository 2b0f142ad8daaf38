import Aletheia.TwoPhaseCommit

/-!
# Custody of a distributed transaction

The facts about a transaction that its participants and the log hold are its view. A transaction is
held by the active map or by the call that took it out; as long as no commit decision for it can be
in the log it has one holder, and only its holder changes its view.
-/

namespace Aletheia.Sharding

open Function List

variable {log : PersistentCommitLog}

/-! ### What the events say about a transaction -/

def Event.txId : Event → TxId
  | .begun x _ | .acknowledged x _ | .committed x _ | .aborted x _ => x

def Event.commits (x : TxId) : Event → Bool
  | .committed y _ => y = x
  | _ => false

def Event.aborts (x : TxId) : Event → Bool
  | .aborted y _ => y = x
  | _ => false

/-- The participants with which the transaction was last begun. -/
def participantsOf (x : TxId) : List Event → List ShardId
  | [] => []
  | .begun y shards :: es => if y = x then shards else participantsOf x es
  | _ :: es => participantsOf x es

/-- The participants that acknowledged a prepare since. -/
def acknowledgedBy (x : TxId) : List Event → List ShardId
  | [] => []
  | .begun y _ :: es => if y = x then [] else acknowledgedBy x es
  | .acknowledged y shard :: es =>
    if y = x then shard :: acknowledgedBy x es else acknowledgedBy x es
  | _ :: es => acknowledgedBy x es

/-- Every participant of the transaction acknowledged its prepare. -/
def AllPrepared (x : TxId) (es : List Event) : Prop :=
  ∀ shard ∈ participantsOf x es, shard ∈ acknowledgedBy x es

instance (x : TxId) (es : List Event) : Decidable (AllPrepared x es) :=
  List.decidableBAll _ _

structure View where
  participants : List ShardId
  acknowledged : List ShardId
  aborted : Bool
  committed : Bool
  /-- a commit decision is in the log file or may get there -/
  logged : Bool
  /-- a commit decision is in the log file -/
  durable : Bool

namespace View

def Ready (v : View) : Prop := v.aborted = false ∧ v.participants ⊆ v.acknowledged

structure Sound (v : View) : Prop where
  durable : v.durable = true → v.logged = true
  logged : v.logged = true → v.Ready
  committed : v.committed = true → v.durable = true

/-- What a holder of the transaction relies on, by the phase it is in. -/
def Custody (v : View) (tx : DistributedTransaction) : Prop :=
  match tx.phase with
  | .pending | .preparing =>
    v.logged = false ∧ v.aborted = false ∧ v.participants ⊆ tx.participantShards ∧
      ∀ shard, (shard, ParticipantState.prepared) ∈ tx.participants → shard ∈ v.acknowledged
  | .prepared => v.Ready
  | .committing | .failed => v.durable = true
  | .aborted => v.logged = false
  -- a committed transaction is dropped
  | .committed => False

/-- The steps on other transactions at most bring a decision to the disk. -/
structure Same (v v' : View) : Prop where
  participants : v'.participants = v.participants
  acknowledged : v'.acknowledged = v.acknowledged
  aborted : v'.aborted = v.aborted
  committed : v'.committed = v.committed
  logged : v'.logged = v.logged
  durable : v.durable = true → v'.durable = true

structure Grows (v v' : View) : Prop where
  logged : v.logged = true → v'.logged = true
  durable : v.durable = true → v'.durable = true

variable {v v' : View} {tx : DistributedTransaction}

lemma Same.refl (v : View) : v.Same v := ⟨rfl, rfl, rfl, rfl, rfl, id⟩

lemma Same.grows (h : v.Same v') : v.Grows v' := ⟨h.logged.symm ▸ id, h.durable⟩

lemma Same.ready (h : v.Same v') (hr : v.Ready) : v'.Ready :=
  ⟨h.aborted.trans hr.1, h.participants.symm ▸ h.acknowledged.symm ▸ hr.2⟩

lemma Same.custody (h : v.Same v') (hc : v.Custody tx) : v'.Custody tx := by
  unfold Custody at hc ⊢
  cases hphase : tx.phase <;> simp only [hphase] at hc ⊢
  case pending | preparing =>
    rw [h.logged, h.aborted, h.participants, h.acknowledged]
    exact hc
  case prepared => exact h.ready hc
  case committing | failed => exact h.durable hc
  case aborted => exact h.logged.trans hc

lemma Custody.of_logged (hc : v.Custody tx) (hl : v.logged = true) (h : v.Grows v')
    (hs : v'.Sound) : v'.Custody tx := by
  unfold Custody at hc ⊢
  cases hphase : tx.phase <;> simp only [hphase] at hc ⊢
  case pending | preparing => exact absurd (hl.symm.trans hc.1) Bool.true_eq_false.mp
  case prepared => exact hs.logged (h.logged hl)
  case committing | failed => exact h.durable hc
  case aborted => exact absurd (hl.symm.trans hc) Bool.true_eq_false.mp

lemma Sound.of_crash (h : v.Sound) (hp : v'.participants = v.participants)
    (hack : v'.acknowledged = v.acknowledged) (hab : v'.aborted = v.aborted)
    (hcom : v'.committed = v.committed) (hdurable : v.durable = true → v'.durable = true)
    (hlogged : v'.logged = true → v.logged = true) (hsame : v'.durable = v'.logged) : v'.Sound where
  durable hd := hsame ▸ hd
  logged hl := by
    obtain ⟨ha, hps⟩ := h.logged (hlogged hl)
    exact ⟨hab.trans ha, hp.symm ▸ hack.symm ▸ hps⟩
  committed hc := hdurable (h.committed (hcom ▸ hc))

end View

namespace ShardCoordinator

def view (s : ShardCoordinator) (x : TxId) : View where
  participants := participantsOf x s.events
  acknowledged := acknowledgedBy x s.events
  aborted := s.events.any (Event.aborts x)
  committed := s.events.any (Event.commits x)
  logged := s.commitLog.entries.any (CommitLogEntry.commits x)
  durable := s.commitLog.file.any (CommitLogEntry.commits x)

variable {s t : ShardCoordinator} {i j : ℕ} {x y : TxId}

section Fields

variable (s i x) (c : Call) (tx : Option DistributedTransaction)

@[simp] lemma view_setCall : (s.setCall i c).view = s.view := rfl
@[simp] lemma calls_setCall : (s.setCall i c).calls = update s.calls i c := rfl
@[simp] lemma active_setCall : (s.setCall i c).activeTransactions = s.activeTransactions := rfl
@[simp] lemma generator_setCall : (s.setCall i c).txIdGenerator = s.txIdGenerator := rfl
@[simp] lemma view_setActive : (s.setActive x tx).view = s.view := rfl
@[simp] lemma calls_setActive : (s.setActive x tx).calls = s.calls := rfl
@[simp] lemma active_setActive :
    (s.setActive x tx).activeTransactions = update s.activeTransactions x tx := rfl
@[simp] lemma generator_setActive : (s.setActive x tx).txIdGenerator = s.txIdGenerator := rfl

lemma setActive_self : s.setActive x (s.activeTransactions x) = s := by
  simp [setActive]

end Fields

lemma view_emit_of_ne {e : Event} (h : e.txId ≠ x) : (s.emit e).view x = s.view x := by
  cases e <;>
    simp_all [view, emit, participantsOf, acknowledgedBy, Event.txId, Event.aborts, Event.commits]

lemma view_emit_begun (shards : List ShardId) :
    (s.emit (.begun x shards)).view x =
      { s.view x with participants := shards, acknowledged := [] } := by
  simp [view, emit, participantsOf, acknowledgedBy, Event.aborts, Event.commits]

lemma view_emit_acknowledged (shard : ShardId) :
    (s.emit (.acknowledged x shard)).view x =
      { s.view x with acknowledged := shard :: (s.view x).acknowledged } := by
  simp [view, emit, participantsOf, acknowledgedBy, Event.aborts, Event.commits]

lemma view_emit_committed (shard : ShardId) :
    (s.emit (.committed x shard)).view x = { s.view x with committed := true } := by
  simp [view, emit, participantsOf, acknowledgedBy, Event.aborts, Event.commits]

def withLog (s : ShardCoordinator) (log : PersistentCommitLog) : ShardCoordinator :=
  { s with commitLog := log }

section Writes

variable {entryType : EntryType} {shards : List ShardId} {ts : Option Timestamp} {w : WriteOutcome}
  {update : CommitLogEntry → List CommitLogEntry → List CommitLogEntry}

lemma same_writeEntry (h : ¬(entryType = .commit ∧ y = x)) : (s.view x).Same
      ((s.withLog (s.commitLog.writeEntry entryType y shards ts update w).2).view x) := by
  have hentry : ∀ lsn,
      CommitLogEntry.commits x ⟨lsn, entryType, y, shards, ts⟩ = false := by
    intro lsn
    simpa [CommitLogEntry.commits] using h
  refine ⟨rfl, rfl, rfl, rfl, ?_, ?_⟩
  · cases w <;>
      simp [view, withLog, PersistentCommitLog.writeEntry, PersistentCommitLog.entries, hentry]
  · cases w <;> simp +contextual [view, withLog, PersistentCommitLog.writeEntry]

lemma view_logCommit_written :
    (s.withLog (s.commitLog.logCommit x shards ts .written).2).view x =
      { s.view x with logged := true, durable := true } := by
  simp [view, withLog, PersistentCommitLog.logCommit, PersistentCommitLog.writeEntry,
    PersistentCommitLog.entries, CommitLogEntry.commits]

/-- A decision that was not confirmed is not counted on, but it may get to the disk. -/
lemma view_logCommit_failed {message : String}
    (h : s.commitLog.logCommit x shards ts w = (.error message, log)) :
    ∃ logged : Bool, (s.withLog log).view x = { s.view x with logged } ∧
      ((s.view x).logged = true → logged = true) := by
  cases w <;> simp only [PersistentCommitLog.logCommit, PersistentCommitLog.writeEntry,
    Prod.mk.injEq, reduceCtorEq, false_and] at h
  case unconfirmed message' =>
    obtain ⟨-, rfl⟩ := h
    refine ⟨true, ?_, fun _ => rfl⟩
    simp [view, withLog, PersistentCommitLog.entries, CommitLogEntry.commits]
  case lost message' =>
    obtain ⟨-, rfl⟩ := h
    exact ⟨(s.view x).logged, rfl, id⟩

end Writes

/-! ### The invariant -/

end ShardCoordinator

/-- The decisions a recovery has still to take up are on disk. -/
def Recovery.Ok (view : TxId → View) (r : Recovery) : Prop :=
  ∀ d ∈ r.decisions, (view d.txId).durable = true

def Caller.Ok (view : TxId → View) (x : TxId) : Caller → Prop
  | .client => True
  | .recovery _ r => (view x).durable = true ∧ r.Ok view

section

variable {view view' : TxId → View} {x : TxId}

lemma Recovery.Ok.mono {r : Recovery} (hr : r.Ok view) (h : ∀ y, (view y).Grows (view' y)) :
    r.Ok view' :=
  fun d hd => (h d.txId).durable (hr d hd)

lemma Caller.Ok.mono {caller : Caller} (hr : caller.Ok view x)
    (h : ∀ y, (view y).Grows (view' y)) : caller.Ok view' x := by
  cases caller with
  | client => trivial
  | recovery attempts r => exact ⟨(h x).durable hr.1, hr.2.mono h⟩

end

/-- `commit_distributed_transaction` is meant for these phases. -/
def TransactionPhase.Committable (phase : TransactionPhase) : Prop :=
  phase = .prepared ∨ phase = .committing ∨ phase = .failed

instance (phase : TransactionPhase) : Decidable phase.Committable := by
  unfold TransactionPhase.Committable
  infer_instance

namespace Call

def held : Call → Option TxId
  | .preparing tx _ _ | .abandoning tx _ _ | .deciding tx _ | .committing tx _ _ _
  | .completing tx _ | .refusing tx | .aborting tx _ => some tx.txId
  | .idle | .returned _ | .calling _ _ | .recovering _ => none

def Ok (view : TxId → View) : Call → Prop
  | .idle | .returned _ => True
  | .preparing tx _ _ => tx.phase = .preparing ∧ (view tx.txId).Custody tx
  | .abandoning tx _ _ | .refusing tx | .aborting tx _ => (view tx.txId).logged = false
  | .calling x caller => (view x).durable = true ∧ caller.Ok view x
  | .deciding tx caller =>
    tx.phase.Committable ∧ (view tx.txId).Custody tx ∧ caller.Ok view tx.txId
  | .committing tx _ _ caller | .completing tx caller =>
    (view tx.txId).durable = true ∧ caller.Ok view tx.txId
  | .recovering r => r.Ok view

variable {view view' : TxId → View} {x : TxId} {c : Call}

/-- A call stays as it is under the steps of other threads: they change the view of one transaction,
which the call does not hold unless a decision for it may be in the log. -/
lemma Ok.other (hc : c.Ok view) (hgrows : ∀ y, (view y).Grows (view' y))
    (hsame : ∀ y ≠ x, (view y).Same (view' y)) (hsound : (view' x).Sound)
    (hown : (view x).logged = false → c.held ≠ some x) : c.Ok view' := by
  have custody : ∀ tx, c.held = some tx.txId → (view tx.txId).Custody tx →
      (view' tx.txId).Custody tx := by
    intro tx hheld hcustody
    by_cases hx : tx.txId = x
    · rw [hx] at hheld hcustody ⊢
      cases hl : (view x).logged with
      | false => exact absurd hheld (hown hl)
      | true => exact hcustody.of_logged hl (hgrows x) hsound
    · exact (hsame _ hx).custody hcustody
  have unlogged : ∀ y, c.held = some y → (view y).logged = false → (view' y).logged = false := by
    intro y hheld hl
    by_cases hx : y = x
    · subst hx
      exact absurd hheld (hown hl)
    · exact (hsame _ hx).logged.trans hl
  cases c with
  | idle | returned => trivial
  | preparing tx rest unavailable => exact ⟨hc.1, custody tx rfl hc.2⟩
  | abandoning tx rest unavailable => exact unlogged _ rfl hc
  | refusing tx => exact unlogged _ rfl hc
  | aborting tx rest => exact unlogged _ rfl hc
  | calling y caller => exact ⟨(hgrows y).durable hc.1, hc.2.mono hgrows⟩
  | deciding tx caller => exact ⟨hc.1, custody tx rfl hc.2.1, hc.2.2.mono hgrows⟩
  | committing tx rest unavailable caller =>
    exact ⟨(hgrows _).durable hc.1, hc.2.mono hgrows⟩
  | completing tx caller => exact ⟨(hgrows _).durable hc.1, hc.2.mono hgrows⟩
  | recovering r => exact Recovery.Ok.mono hc hgrows

end Call

namespace ShardCoordinator

variable {ts : Option Timestamp} {c : Call}

structure Inv (s : ShardCoordinator) : Prop where
  sound : ∀ x, (s.view x).Sound
  bound : ∀ x, (s.view x).logged = true → x.val < s.txIdGenerator
  pending : ∀ d ∈ s.commitLog.pending, d.entryType = .commit → (s.view d.txId).durable = true
  active : ∀ x tx, s.activeTransactions x = some tx →
    tx.txId = x ∧ x.val < s.txIdGenerator ∧ (s.view x).Custody tx
  calls : ∀ i, (s.calls i).Ok s.view
  heldBound : ∀ i x, (s.calls i).held = some x → x.val < s.txIdGenerator
  alone : ∀ i x, (s.view x).logged = false → (s.calls i).held = some x →
    s.activeTransactions x = none ∧ ∀ j, (s.calls j).held = some x → j = i

/-- What a step on the transaction `x` does to everything but the active map and its own call. -/
structure World (s t : ShardCoordinator) (x : TxId) : Prop where
  calls : t.calls = s.calls
  active : t.activeTransactions = s.activeTransactions
  generator : s.txIdGenerator ≤ t.txIdGenerator
  same : ∀ y ≠ x, (s.view y).Same (t.view y)
  grows : (s.view x).Grows (t.view x)
  sound : (t.view x).Sound
  pending : ∀ d ∈ t.commitLog.pending, d.entryType = .commit → (t.view d.txId).durable = true

/-- No other thread works on the transaction, unless a decision for it may be in the log. -/
def Owned (s : ShardCoordinator) (i : ℕ) (x : TxId) : Prop :=
  (s.view x).logged = false → ∀ j ≠ i, (s.calls j).held ≠ some x

variable {s t : ShardCoordinator} {i : ℕ} {x : TxId}

lemma View.Same.sound {v v' : View} (h : v.Same v') (hs : v.Sound)
    (hd : v'.durable = true → v'.logged = true) : v'.Sound where
  durable := hd
  logged hl := h.ready (hs.logged (h.logged ▸ hl))
  committed hc := h.durable (hs.committed (h.committed ▸ hc))

lemma durable_logged (h : (s.view x).durable = true) : (s.view x).logged = true := by
  simp only [view, PersistentCommitLog.entries, any_append, Bool.or_eq_true] at h ⊢
  exact .inl h

lemma World.allGrows (hw : World s t x) (y : TxId) : (s.view y).Grows (t.view y) := by
  by_cases hy : y = x
  · exact hy ▸ hw.grows
  · exact (hw.same y hy).grows

/-- **The rule for a step of one thread.** -/
theorem Inv.act (h : Inv s) (hw : World s t x) (hown : s.Owned i x)
    {v : Option DistributedTransaction} (hx : x.val < t.txIdGenerator)
    (hv : ∀ tx, v = some tx → tx.txId = x ∧ (t.view x).Custody tx) (hc : c.Ok t.view)
    (hheld : ∀ y, c.held = some y → y = x)
    (hone : (t.view x).logged = false → c.held = some x → v = none) :
    Inv ((t.setActive x v).setCall i c) := by
  have unlogged : ∀ y, (t.view y).logged = false → (s.view y).logged = false := by
    intro y hy
    rw [Bool.eq_false_iff] at hy ⊢
    exact fun hl => hy ((hw.allGrows y).logged hl)
  constructor
  case sound =>
    intro y
    by_cases hy : y = x
    · exact hy ▸ hw.sound
    · exact View.Same.sound (hw.same y hy) (h.sound y) durable_logged
  case bound =>
    intro y hl
    by_cases hy : y = x
    · exact hy ▸ hx
    · exact (h.bound y ((hw.same y hy).logged ▸ hl)).trans_le hw.generator
  case pending => exact hw.pending
  case active =>
    intro y tx hy
    by_cases hyx : y = x
    · subst hyx
      simp only [active_setCall, active_setActive, update_self] at hy
      exact ⟨(hv tx hy).1, hx, (hv tx hy).2⟩
    · simp only [active_setCall, active_setActive, update_of_ne hyx, hw.active] at hy
      obtain ⟨hid, hbound, hcustody⟩ := h.active y tx hy
      exact ⟨hid, hbound.trans_le hw.generator, (hw.same y hyx).custody hcustody⟩
  case calls =>
    intro j
    by_cases hj : j = i
    · subst hj
      simpa only [calls_setCall, view_setCall, view_setActive, update_self] using hc
    · simp only [calls_setCall, calls_setActive, view_setCall, view_setActive,
        update_of_ne hj, hw.calls]
      exact (h.calls j).other hw.allGrows hw.same hw.sound fun hl => hown hl j hj
  case heldBound =>
    intro j y hj
    by_cases hji : j = i
    · subst hji
      simp only [calls_setCall, update_self] at hj
      exact hheld y hj ▸ hx
    · simp only [calls_setCall, calls_setActive, update_of_ne hji, hw.calls] at hj
      exact (h.heldBound j y hj).trans_le hw.generator
  case alone =>
    intro j y hl hj
    by_cases hji : j = i
    · subst hji
      simp only [calls_setCall, update_self] at hj
      obtain rfl := hheld y hj
      refine ⟨?_, ?_⟩
      · simpa only [active_setCall, active_setActive, update_self] using hone hl hj
      · intro k hk
        by_contra hkj
        simp only [calls_setCall, calls_setActive, update_of_ne hkj, hw.calls] at hk
        exact hown (unlogged y hl) k hkj hk
    · simp only [calls_setCall, calls_setActive, update_of_ne hji, hw.calls] at hj
      have hyx : y ≠ x := by
        rintro rfl
        exact hown (unlogged y hl) j hji hj
      obtain ⟨hnone, hsole⟩ := h.alone j y (unlogged y hl) hj
      refine ⟨?_, ?_⟩
      · simpa only [active_setCall, active_setActive, update_of_ne hyx, hw.active] using hnone
      · intro k hk
        by_cases hki : k = i
        · subst hki
          simp only [calls_setCall, update_self] at hk
          exact absurd (hheld y hk) hyx
        · simp only [calls_setCall, calls_setActive, update_of_ne hki, hw.calls] at hk
          exact hsole k hk

lemma Inv.owned_of_held (h : Inv s) (hi : (s.calls i).held = some x) : s.Owned i x :=
  fun hl j hj hheld => hj ((h.alone i x hl hi).2 j hheld)

lemma Inv.owned_of_active (h : Inv s) {tx : DistributedTransaction}
    (hx : s.activeTransactions x = some tx) : s.Owned i x := by
  intro hl j _ hheld
  rw [(h.alone j x hl hheld).1] at hx
  cases hx

lemma owned_of_logged (hl : (s.view x).logged = true) : s.Owned i x :=
  fun hl' => absurd (hl.symm.trans hl') (by simp)

/-- The rule for a step of a thread on the transaction it holds. -/
lemma Inv.act_held (h : Inv s) (hw : World s t x) (hi : (s.calls i).held = some x)
    (hc : c.Ok t.view) (hheld : ∀ y, c.held = some y → y = x) : Inv (t.setCall i c) := by
  rw [← setActive_self t x]
  refine h.act hw (h.owned_of_held hi) ((h.heldBound i x hi).trans_le hw.generator) ?_ hc hheld ?_
  · intro tx htx
    rw [hw.active] at htx
    obtain ⟨hid, -, hcustody⟩ := h.active x tx htx
    refine ⟨hid, ?_⟩
    cases hl : (s.view x).logged with
    | true => exact hcustody.of_logged hl hw.grows hw.sound
    | false => rw [(h.alone i x hl hi).1] at htx; cases htx
  · intro hl _
    rw [hw.active]
    refine (h.alone i x ?_ hi).1
    rw [Bool.eq_false_iff] at hl ⊢
    exact fun hl' => hl (hw.grows.logged hl')

lemma Inv.quiet (h : Inv s) (hview : t.view = s.view) (hcalls : t.calls = update s.calls i c)
    (hactive : t.activeTransactions = s.activeTransactions)
    (hgenerator : s.txIdGenerator ≤ t.txIdGenerator)
    (hpending : t.commitLog.pending = s.commitLog.pending) (hc : c.Ok s.view)
    (hheld : c.held = none) : Inv t := by
  have hother : ∀ j x, (t.calls j).held = some x → (s.calls j).held = some x := by
    intro j x hj
    rw [hcalls] at hj
    by_cases hji : j = i
    · subst hji
      rw [update_self, hheld] at hj
      cases hj
    · rwa [update_of_ne hji] at hj
  constructor
  case sound => exact hview ▸ h.sound
  case bound => exact fun x hl => (h.bound x (hview ▸ hl)).trans_le hgenerator
  case pending => exact hpending ▸ hview ▸ h.pending
  case active =>
    intro x tx hx
    obtain ⟨hid, hbound, hcustody⟩ := h.active x tx (hactive ▸ hx)
    exact ⟨hid, hbound.trans_le hgenerator, hview ▸ hcustody⟩
  case calls =>
    intro j
    rw [hview, hcalls]
    by_cases hji : j = i
    · subst hji
      rwa [update_self]
    · rw [update_of_ne hji]
      exact h.calls j
  case heldBound => exact fun j x hj => (h.heldBound j x (hother j x hj)).trans_le hgenerator
  case alone =>
    intro j x hl hj
    obtain ⟨hnone, hsole⟩ := h.alone j x (hview ▸ hl) (hother j x hj)
    exact ⟨hactive ▸ hnone, fun k hk => hsole k (hother k x hk)⟩

lemma Inv.reply (h : Inv s) (r : Reply) : Inv (s.reply i r) :=
  h.quiet rfl rfl rfl le_rfl rfl trivial rfl

/-! ### What the steps do to the view -/

lemma World.refl (h : Inv s) (x : TxId) : World s s x :=
  ⟨rfl, rfl, le_rfl, fun _ _ => .refl _, (View.Same.refl _).grows, h.sound x, h.pending⟩

lemma World.of_connections (h : Inv s) (x : TxId)
    (connections : ShardId → Option ShardConnection) : World s { s with connections } x :=
  ⟨rfl, rfl, le_rfl, fun _ _ => .refl _, (View.Same.refl _).grows, h.sound x, h.pending⟩

lemma markAllUnavailable_eq (unavailable : List ShardId) :
    ∃ connections, s.markAllUnavailable unavailable = { s with connections } := by
  induction unavailable generalizing s with
  | nil => exact ⟨s.connections, rfl⟩
  | cons shard unavailable ih => exact ih

lemma World.markAllUnavailable (h : Inv s) (x : TxId) (unavailable : List ShardId) :
    World s (s.markAllUnavailable unavailable) x := by
  obtain ⟨connections, heq⟩ := s.markAllUnavailable_eq unavailable
  rw [heq]
  exact .of_connections h x connections

lemma World.emit (h : Inv s) {e : Event} (hx : e.txId = x)
    (hsound : ((s.emit e).view x).Sound) : World s (s.emit e) x where
  calls := rfl
  active := rfl
  generator := le_rfl
  same y hy := by
    have hne : e.txId ≠ y := fun heq => hy (heq.symm.trans hx)
    rw [view_emit_of_ne hne]
    exact .refl _
  grows := ⟨id, id⟩
  sound := hsound
  pending := h.pending

variable {shards : List ShardId} {w : WriteOutcome}

lemma World.writeEntry (h : Inv s) {entryType : EntryType}
    {update : CommitLogEntry → List CommitLogEntry → List CommitLogEntry}
    (hentry : entryType ≠ .commit)
    (hupdate : ∀ e pending, ∀ d ∈ update e pending, d = e ∨ d ∈ pending) :
    World s (s.withLog (s.commitLog.writeEntry entryType x shards ts update w).2) x where
  calls := rfl
  active := rfl
  generator := le_rfl
  same y _ := same_writeEntry fun hc => hentry hc.1
  grows := (same_writeEntry fun hc => hentry hc.1).grows
  sound := View.Same.sound (same_writeEntry fun hc => hentry hc.1) (h.sound x) durable_logged
  pending d hd hcommit := by
    refine (same_writeEntry fun hc => hentry hc.1).durable (h.pending d ?_ hcommit)
    cases w with
    | written =>
      rcases hupdate _ _ d hd with rfl | hd
      · exact absurd hcommit hentry
      · exact hd
    | unconfirmed | lost => exact hd

lemma mem_insertPending {e d : CommitLogEntry} {pending : List CommitLogEntry}
    (h : d ∈ PersistentCommitLog.insertPending e pending) : d = e ∨ d ∈ pending := by
  simp only [PersistentCommitLog.insertPending, mem_append, mem_singleton] at h
  exact h.symm.imp_right mem_of_mem_filter

lemma World.logAbort (h : Inv s) : World s (s.withLog (s.commitLog.logAbort x shards w).2) x :=
  .writeEntry h (by simp) fun _ _ _ => mem_insertPending

lemma World.logComplete (h : Inv s) : World s (s.withLog (s.commitLog.logComplete x w).2) x :=
  .writeEntry h (by simp) fun _ _ _ hd => .inr (mem_of_mem_filter hd)

lemma World.logCommit (h : Inv s) (hready : (s.view x).Ready) :
    World s (s.withLog (s.commitLog.logCommit x shards ts .written).2) x := by
  have hview : (s.withLog (s.commitLog.logCommit x shards ts .written).2).view x =
      { s.view x with logged := true, durable := true } := view_logCommit_written
  have hsame : ∀ y ≠ x, (s.view y).Same
      ((s.withLog (s.commitLog.logCommit x shards ts .written).2).view y) :=
    fun y hy => same_writeEntry fun hc => hy hc.2.symm
  refine ⟨rfl, rfl, le_rfl, hsame, ?_, ?_, ?_⟩
  · rw [hview]
    exact ⟨fun _ => rfl, fun _ => rfl⟩
  · rw [hview]
    exact ⟨fun _ => rfl, fun _ => hready, fun _ => rfl⟩
  · intro d hd hcommit
    by_cases hdx : d.txId = x
    · rw [hdx, hview]
    · refine (hsame _ hdx).durable (h.pending d ?_ hcommit)
      rcases mem_insertPending hd with rfl | hd
      · exact absurd rfl hdx
      · exact hd

lemma World.logCommit_failed (h : Inv s) {message : String}
    (hlog : s.commitLog.logCommit x shards ts w = (.error message, log)) (hready : (s.view x).Ready) :
    World s (s.withLog log) x := by
  obtain ⟨logged, hview, hlogged⟩ := view_logCommit_failed hlog
  have hlog' : log = (s.commitLog.logCommit x shards ts w).2 := by rw [hlog]
  have hsame : ∀ y ≠ x, (s.view y).Same ((s.withLog log).view y) :=
    fun y hy => hlog' ▸ same_writeEntry fun hc => hy hc.2.symm
  have hsound : ((s.withLog log).view x).Sound :=
    ⟨durable_logged, fun _ => by rw [hview]; exact hready,
      fun hc => by rw [hview] at hc ⊢; exact (h.sound x).committed hc⟩
  refine ⟨rfl, rfl, le_rfl, hsame, ?_, hsound, ?_⟩
  · rw [hview]
    exact ⟨hlogged, id⟩
  · intro d hd hcommit
    have hd : d ∈ s.commitLog.pending := by
      cases w <;> simp only [PersistentCommitLog.logCommit, PersistentCommitLog.writeEntry,
        Prod.mk.injEq, reduceCtorEq, false_and] at hlog
      all_goals
        obtain ⟨-, rfl⟩ := hlog
        exact hd
    have hold := h.pending d hd hcommit
    by_cases hdx : d.txId = x
    · rw [hdx] at hold ⊢
      rw [hview]
      exact hold
    · exact (hsame _ hdx).durable hold

/-! ### Transactions in custody -/

end ShardCoordinator

namespace DistributedTransaction

variable {tx tx' : DistributedTransaction} {v : View} {shard : ShardId}
  {p : ShardId × ParticipantState} {state : ParticipantState}

@[simp] lemma participantShards_record (state : ParticipantState) :
    (tx.record state shard).participantShards = tx.participantShards := by
  simp only [participantShards, record, map_map]
  refine map_congr_left fun p _ => ?_
  by_cases hp : p.1 = shard <;> simp [hp]

lemma mem_record (h : p ∈ (tx.record state shard).participants) :
    p = (shard, state) ∨ p ∈ tx.participants := by
  simp only [record, mem_map] at h
  obtain ⟨q, hq, rfl⟩ := h
  by_cases hqs : q.1 = shard
  · exact .inl (by simp [hqs])
  · exact .inr (by simpa [hqs] using hq)

lemma custody_preparing (h : tx.phase = .preparing) : v.Custody tx ↔
    v.logged = false ∧ v.aborted = false ∧ v.participants ⊆ tx.participantShards ∧
      ∀ shard, (shard, ParticipantState.prepared) ∈ tx.participants → shard ∈ v.acknowledged := by
  simp only [View.Custody, h]

lemma custody_record (hphase : tx.phase = .preparing) (hstate : state ≠ .prepared)
    (h : v.Custody tx) : v.Custody (tx.record state shard) := by
  have hphase' : (tx.record state shard).phase = .preparing := hphase
  rw [custody_preparing hphase] at h
  rw [custody_preparing hphase']
  obtain ⟨hl, ha, hps, hack⟩ := h
  refine ⟨hl, ha, by rwa [participantShards_record], fun p hp => ?_⟩
  rcases mem_record hp with heq | hp
  · exact absurd (Prod.mk.inj heq).2.symm hstate
  · exact hack p hp

lemma custody_recordPrepareSuccess (hphase : tx.phase = .preparing) (h : v.Custody tx) :
    { v with acknowledged := shard :: v.acknowledged }.Custody (tx.recordPrepareSuccess shard) := by
  have hphase' : (tx.recordPrepareSuccess shard).phase = .preparing := hphase
  rw [custody_preparing hphase] at h
  rw [custody_preparing hphase']
  obtain ⟨hl, ha, hps, hack⟩ := h
  refine ⟨hl, ha, by rwa [recordPrepareSuccess, participantShards_record], fun p hp => ?_⟩
  rcases mem_record hp with heq | hp
  · exact mem_cons.mpr (.inl (Prod.mk.inj heq).1)
  · exact mem_cons_of_mem _ (hack p hp)

lemma custody_markPrepared (h : v.Custody tx) (hok : tx.markPrepared = .ok tx') :
    tx'.txId = tx.txId ∧ v.Custody tx' := by
  unfold markPrepared at hok
  split_ifs at hok with hphase hall
  cases hok
  rw [custody_preparing (not_not.mp hphase)] at h
  obtain ⟨-, ha, hps, hack⟩ := h
  refine ⟨rfl, ha, fun shard hshard => hack shard ?_⟩
  -- every participant is in state `Prepared`
  obtain ⟨⟨shard', state⟩, hmem, rfl⟩ := mem_map.mp (hps hshard)
  simp only [allPrepared, all, Bool.not_eq_true', Bool.not_eq_false, all_eq_true,
    decide_eq_true_eq] at hall
  have hstate : state = .prepared := hall _ hmem
  exact hstate ▸ hmem

lemma stamp_ok {clock : Except DistributedTxError Timestamp} (h : tx.stamp clock = .ok tx') :
    tx'.txId = tx.txId ∧ tx'.phase = tx.phase ∧ tx'.participants = tx.participants := by
  unfold stamp at h
  cases hts : tx.commitTimestamp with
  | some ts =>
    rw [hts] at h
    cases h
    exact ⟨rfl, rfl, rfl⟩
  | none =>
    rw [hts] at h
    cases clock with
    | error e => cases h
    | ok ts =>
      cases h
      exact ⟨rfl, rfl, rfl⟩

lemma custody_congr (hphase : tx'.phase = tx.phase) (hps : tx'.participants = tx.participants)
    (h : v.Custody tx) : v.Custody tx' := by
  simpa only [View.Custody, participantShards, hphase, hps] using h

lemma custody_beginPrepare (h : v.Custody tx) (hok : tx.beginPrepare = .ok tx') :
    tx'.txId = tx.txId ∧ tx'.phase = .preparing ∧ v.Custody tx' := by
  unfold beginPrepare at hok
  split_ifs at hok with hphase
  cases hok
  refine ⟨rfl, rfl, ?_⟩
  simp only [View.Custody, hphase] at h
  exact h

lemma custody_pending (hphase : tx.phase = .preparing) (h : v.Custody tx) :
    v.Custody { tx with phase := .pending } := by
  rw [custody_preparing hphase] at h
  exact h

lemma ready_of_committable (hphase : tx.phase.Committable) (hs : v.Sound) (h : v.Custody tx) :
    v.Ready := by
  unfold View.Custody at h
  rcases hphase with hphase | hphase | hphase <;> simp only [hphase] at h
  · exact h
  · exact hs.logged (hs.durable h)
  · exact hs.logged (hs.durable h)

lemma committable_of_logged (hl : v.logged = true) (h : v.Custody tx) : tx.phase.Committable := by
  unfold View.Custody at h
  cases hphase : tx.phase <;> simp only [hphase, hl, Bool.true_eq_false, false_and] at h
  case prepared => exact .inl rfl
  case committing => exact .inr (.inl rfl)
  case failed => exact .inr (.inr rfl)

lemma foldl_record_eq (shards : List ShardId) (tx : DistributedTransaction) :
    (shards.foldl .recordPrepareSuccess tx).phase = tx.phase ∧
      (shards.foldl .recordPrepareSuccess tx).txId = tx.txId ∧
      (shards.foldl .recordPrepareSuccess tx).participantShards = tx.participantShards := by
  induction shards generalizing tx with
  | nil => exact ⟨rfl, rfl, rfl⟩
  | cons shard shards ih =>
    obtain ⟨hphase, hid, hps⟩ := ih (tx.recordPrepareSuccess shard)
    exact ⟨hphase, hid, hps.trans (participantShards_record _)⟩

lemma mem_foldl_record {shards : List ShardId}
    (h : p ∈ (shards.foldl .recordPrepareSuccess tx).participants) :
    p.2 = .prepared ∨ p ∈ tx.participants ∧ p.1 ∉ shards := by
  induction shards generalizing tx with
  | nil => exact .inr ⟨h, not_mem_nil⟩
  | cons shard shards ih =>
    rcases ih h with hp | ⟨hp, hshards⟩
    · exact .inl hp
    · simp only [recordPrepareSuccess, record, mem_map] at hp
      obtain ⟨q, hq, rfl⟩ := hp
      by_cases hqs : q.1 = shard
      · exact .inl (by simp [hqs])
      · simp only [hqs, if_false] at hshards ⊢
        exact .inr ⟨hq, by simp [hqs, hshards]⟩

lemma allPrepared_foldl_record (tx : DistributedTransaction) :
    (tx.participantShards.foldl .recordPrepareSuccess tx).allPrepared = true := by
  simp only [allPrepared, all, all_eq_true, decide_eq_true_eq]
  intro p hp
  rcases mem_foldl_record hp with hprepared | ⟨hmem, hnot⟩
  · exact hprepared
  · exact absurd (mem_map_of_mem hmem) hnot

end DistributedTransaction

namespace ShardCoordinator

variable {s t : ShardCoordinator} {i : ℕ} {x : TxId}

lemma rebuilt_committing (d : CommitLogEntry) :
    (rebuilt d).phase = .committing ∧ (rebuilt d).txId = d.txId := by
  simp only [rebuilt, DistributedTransaction.attempt, DistributedTransaction.beginPrepare,
    DistributedTransaction.new, if_true]
  set tx : DistributedTransaction :=
    ⟨d.txId, .preparing, d.participants.dedup.map fun shard => (shard, .unknown), false, none⟩
  obtain ⟨hphase, hid, -⟩ := DistributedTransaction.foldl_record_eq tx.participantShards tx
  have hall := DistributedTransaction.allPrepared_foldl_record tx
  have hphase : (tx.participantShards.foldl .recordPrepareSuccess tx).phase = .preparing := hphase
  simp [DistributedTransaction.markPrepared, DistributedTransaction.beginCommit, hphase, hall, hid,
    tx]

end ShardCoordinator

end Aletheia.Sharding
