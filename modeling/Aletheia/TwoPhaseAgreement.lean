import Mathlib.Data.List.MinMax
import Aletheia.TwoPhaseCustody

/-!
# Agreement of the two-phase commit

Every step of the coordinator keeps the custody of the transactions, provided that it is called
properly. A participant is then never told to commit what another one was told to abort.
-/

namespace Aletheia.Sharding.ShardCoordinator

open Function List Call

variable {s t : ShardCoordinator} {i : ℕ} {x : TxId} {tx : DistributedTransaction}
  {rest rest' unavailable : List ShardId} {caller : Caller} {shard : ShardId}
  {v : Option DistributedTransaction} {file : List CommitLogEntry} {c : Call}

/-! ### The steps -/

/-- The next id of the generator, with the generator moved past it. -/
def drawn (s : ShardCoordinator) : ShardCoordinator :=
  { s with txIdGenerator := s.txIdGenerator + 1 }

lemma Inv.fresh (h : Inv s) : (s.view ⟨s.txIdGenerator⟩).logged = false := by
  rw [Bool.eq_false_iff]
  exact fun hl => absurd (h.bound _ hl) (lt_irrefl _)

lemma Inv.world_begun (h : Inv s) (shards : List ShardId) :
    World s (s.drawn.emit (.begun ⟨s.txIdGenerator⟩ shards)) ⟨s.txIdGenerator⟩ where
  calls := rfl
  active := rfl
  generator := Nat.le_succ _
  same y hy := by
    rw [view_emit_of_ne (show (Event.begun ⟨s.txIdGenerator⟩ shards).txId ≠ y from hy.symm)]
    exact .refl _
  grows := ⟨id, id⟩
  sound := by
    refine ⟨durable_logged, fun hl => absurd hl ?_, (h.sound ⟨s.txIdGenerator⟩).committed⟩
    exact Bool.eq_false_iff.mp h.fresh
  pending := h.pending

lemma custody_new {v : View} {x : TxId} {participants : List ShardId} (hl : v.logged = false)
    (ha : v.aborted = false) (hps : v.participants = participants.dedup) :
    v.Custody (.new x participants) := by
  refine ⟨hl, ha, ?_, fun shard hshard => ?_⟩
  · simp [hps, DistributedTransaction.new, DistributedTransaction.participantShards, comp_def]
  · simp [DistributedTransaction.new] at hshard

variable (h : Inv s)

include h

lemma inv_begin (participants : List ShardId) (hfresh : (s.view ⟨s.txIdGenerator⟩).aborted = false) :
    Inv (s.beginDistributedTransaction i participants) := by
  simp only [beginDistributedTransaction]
  split_ifs with hmax
  · have hview : (s.drawn.emit (.begun ⟨s.txIdGenerator⟩ participants.dedup)).view
        ⟨s.txIdGenerator⟩ = { s.view ⟨s.txIdGenerator⟩ with
          participants := participants.dedup, acknowledged := [] } := view_emit_begun _
    refine h.act (h.world_begun participants.dedup) ?_ (Nat.lt_succ_self _) ?_ ?_ ?_ ?_
      (v := some (.new ⟨s.txIdGenerator⟩ participants)) (c := .returned _)
    · exact fun _ j _ hheld => absurd (h.heldBound j _ hheld) (lt_irrefl _)
    · rintro _ ⟨⟩
      rw [hview]
      exact ⟨rfl, custody_new h.fresh hfresh rfl⟩
    · trivial
    · exact fun y hy => absurd hy (by simp [held])
    · exact fun _ hheld => absurd hheld (by simp [held])
  · exact h.quiet rfl rfl rfl (Nat.le_succ _) rfl trivial rfl

lemma Inv.take (hx : s.activeTransactions x = some tx) (hc : c.Ok s.view) (hheld : c.held = some x) :
    Inv ((s.setActive x none).setCall i c) := by
  refine h.act (.refl h x) (h.owned_of_active hx) (h.active x tx hx).2.1 ?_ hc ?_ fun _ _ => rfl
  · exact fun _ htx => absurd htx (by simp)
  · intro y hy
    exact Option.some.inj (hy.symm.trans hheld)

lemma Inv.put (hw : World s t x) (hown : s.Owned i x) (hx : x.val < s.txIdGenerator)
    (hv : ∀ tx, v = some tx → tx.txId = x ∧ (t.view x).Custody tx) (hc : c.Ok t.view)
    (hheld : c.held = none) : Inv ((t.setActive x v).setCall i c) := by
  refine h.act hw hown (hx.trans_le hw.generator) hv hc ?_ ?_
  · exact fun y hy => absurd (hheld.symm.trans hy) (by simp)
  · exact fun _ hy => absurd (hheld.symm.trans hy) (by simp)

lemma inv_prepare (clock : Except DistributedTxError Timestamp) :
    Inv (s.prepareDistributedTransaction i x clock) := by
  unfold prepareDistributedTransaction
  cases hx : s.activeTransactions x with
  | none => exact h.reply _
  | some tx =>
    obtain ⟨hid, hbound, hcustody⟩ := h.active x tx hx
    cases hbegin : tx.beginPrepare with
    | error e =>
      simp only [hbegin]
      exact h.reply _
    | ok tx₁ =>
      simp only [hbegin]
      obtain ⟨hid₁, hphase₁, hcustody₁⟩ :=
        DistributedTransaction.custody_beginPrepare hcustody hbegin
      cases hstamp : tx₁.stamp clock with
      | error e =>
        simp only
        refine h.put (.refl h x) (h.owned_of_active hx) hbound ?_ trivial rfl
        rintro _ ⟨⟩
        exact ⟨hid₁.trans hid, DistributedTransaction.custody_pending hphase₁ hcustody₁⟩
      | ok tx₂ =>
        obtain ⟨hid₂, hphase₂, hps₂⟩ := DistributedTransaction.stamp_ok hstamp
        have hid : tx₂.txId = x := hid₂.trans (hid₁.trans hid)
        simp only
        refine h.take hx ⟨hphase₂.trans hphase₁, ?_⟩ (congrArg some hid)
        rw [hid]
        exact DistributedTransaction.custody_congr hphase₂ hps₂ hcustody₁

lemma inv_contactPrepare (hi : s.calls i = .preparing tx rest' unavailable) :
    Inv (s.contactPrepare i tx rest unavailable shard) := by
  obtain ⟨hphase, hcustody⟩ : (preparing tx rest' unavailable).Ok s.view := hi ▸ h.calls i
  have hheld := congrArg held hi
  have quiet : ∀ state unavailable', state ≠ ParticipantState.prepared →
      Inv (s.setCall i (.preparing (tx.record state shard) rest unavailable')) := by
    intro state unavailable' hstate
    refine h.act_held (.refl h _) hheld ⟨hphase, ?_⟩ fun y hy => (Option.some.inj hy).symm
    exact DistributedTransaction.custody_record hphase hstate hcustody
  unfold contactPrepare
  cases hconn : s.connections shard with
  | none => exact quiet _ _ (by simp)
  | some conn =>
    cases hreq : conn.prepare with
    | error e =>
      simp only [hreq]
      cases e
      case participantUnavailable => exact quiet _ _ ParticipantState.noConfusion
      all_goals exact quiet _ _ ParticipantState.noConfusion
    | ok =>
      simp only [hreq]
      have hview := s.view_emit_acknowledged (x := tx.txId) shard
      refine h.act_held (.emit h rfl ?_) hheld ⟨hphase, ?_⟩ fun y hy => (Option.some.inj hy).symm
      · change ((s.emit _).view tx.txId).Sound
        rw [hview]
        obtain ⟨hl, -⟩ := (DistributedTransaction.custody_preparing hphase).mp hcustody
        exact ⟨(h.sound _).durable, fun hl' => absurd (hl.symm.trans hl') (by simp),
          (h.sound _).committed⟩
      · change ((s.emit _).view tx.txId).Custody _
        rw [hview]
        exact DistributedTransaction.custody_recordPrepareSuccess hphase hcustody

lemma inv_endPrepare (hi : s.calls i = .preparing tx rest unavailable) :
    Inv (s.endPrepare i tx unavailable) := by
  obtain ⟨hphase, hcustody⟩ : (preparing tx rest unavailable).Ok s.view := hi ▸ h.calls i
  have hheld := congrArg held hi
  have hown := h.owned_of_held hheld
  have hbound := h.heldBound i _ hheld
  unfold endPrepare
  split_ifs with hfailed
  · exact h.act_held (.refl h _) hheld ((DistributedTransaction.custody_preparing hphase).mp hcustody).1
      fun y hy => (Option.some.inj hy).symm
  · cases hmark : tx.markPrepared with
    | error e =>
      refine h.put (.refl h _) hown hbound ?_ trivial rfl
      rintro _ ⟨⟩
      exact ⟨rfl, hcustody⟩
    | ok tx' =>
      obtain ⟨hid, hcustody'⟩ := DistributedTransaction.custody_markPrepared hcustody hmark
      simp only [reinsertTransaction, hid]
      refine h.put (.refl h _) hown hbound ?_ trivial rfl
      rintro _ ⟨⟩
      exact ⟨hid, hcustody'⟩

/-- An abort is delivered only while no decision to commit can be in the log. -/
lemma Inv.world_contactAbort (hl : (s.view x).logged = false) (shard : ShardId) :
    World s (s.contactAbort x shard) x ∧ ((s.contactAbort x shard).view x).logged = false := by
  unfold contactAbort
  cases hconn : s.connections shard with
  | none => exact ⟨.refl h x, hl⟩
  | some conn =>
    cases hreq : conn.abort with
    | error e =>
      simp only [hreq]
      exact ⟨.refl h x, hl⟩
    | ok =>
      simp only [hreq]
      refine ⟨.emit h rfl ⟨(h.sound x).durable, fun hl' => ?_, (h.sound x).committed⟩, hl⟩
      exact absurd hl' (Bool.eq_false_iff.mp hl)

lemma inv_contactAbort {c c' : Call} (hi : s.calls i = c) (hheld : c.held = some x)
    (hl : (s.view x).logged = false) (hheld' : c'.held = some x)
    (hc : ∀ v : TxId → View, (v x).logged = false → c'.Ok v) :
    Inv ((s.contactAbort x shard).setCall i c') := by
  obtain ⟨hw, hl'⟩ := h.world_contactAbort hl shard
  exact h.act_held hw (hi ▸ hheld) (hc _ hl') fun y hy => Option.some.inj (hy.symm.trans hheld')

lemma inv_endAbandon (hi : s.calls i = .abandoning tx rest unavailable) :
    Inv (s.endAbandon i tx unavailable) := by
  have hl : (s.view tx.txId).logged = false :=
    (hi ▸ h.calls i : (abandoning tx rest unavailable).Ok s.view)
  have hheld := congrArg held hi
  have hw := World.markAllUnavailable h tx.txId unavailable
  refine h.put hw (h.owned_of_held hheld) (h.heldBound i _ hheld) ?_ trivial rfl
  rintro _ ⟨⟩
  refine ⟨rfl, ?_⟩
  obtain ⟨connections, heq⟩ := s.markAllUnavailable_eq unavailable
  rw [heq]
  exact hl

lemma Inv.commitFailed (hw : World s t x) (hown : s.Owned i x) (hx : x.val < s.txIdGenerator)
    (hv : ∀ tx, v = some tx → tx.txId = x ∧ (t.view x).Custody tx) (e : DistributedTxError)
    (hcaller : caller.Ok t.view x) : Inv ((t.setActive x v).commitFailed i x e caller) := by
  unfold ShardCoordinator.commitFailed
  cases caller with
  | client => exact h.put hw hown hx hv trivial rfl
  | recovery attempts r =>
    simp only
    split_ifs with hattempts
    · exact h.put hw hown hx hv ⟨hcaller.1, hcaller⟩ rfl
    · have hidem : (t.setActive x v).setActive x none = t.setActive x none := by
        simp [setActive, update_idem]
      rw [hidem]
      exact h.put hw hown hx (fun _ htx => absurd htx (by simp)) hcaller.2 rfl

lemma Inv.commitFailed_absent (hx : s.activeTransactions x = none) (e : DistributedTxError)
    (hcaller : caller.Ok s.view x) : Inv (s.commitFailed i x e caller) := by
  unfold ShardCoordinator.commitFailed
  cases caller with
  | client => exact h.reply _
  | recovery attempts r =>
    have hsame : s.setActive x none = s := hx ▸ s.setActive_self x
    simp only [hsame]
    split_ifs with hattempts
    · exact h.quiet rfl rfl rfl le_rfl rfl ⟨hcaller.1, hcaller⟩ rfl
    · exact h.quiet rfl rfl rfl le_rfl rfl hcaller.2 rfl

lemma inv_commit (clock : Except DistributedTxError Timestamp) (hcaller : caller.Ok s.view x)
    (hphase : ∀ tx, s.activeTransactions x = some tx → tx.phase.Committable) :
    Inv (s.commitDistributedTransaction i x clock caller) := by
  unfold commitDistributedTransaction
  cases hx : s.activeTransactions x with
  | none => exact h.commitFailed_absent hx _ hcaller
  | some tx =>
    obtain ⟨hid, hbound, hcustody⟩ := h.active x tx hx
    cases hstamp : tx.stamp clock with
    | error e =>
      simp only [hstamp]
      rw [← s.setActive_self x]
      refine h.commitFailed (.refl h x) (h.owned_of_active hx) hbound ?_ e hcaller
      intro tx' htx'
      obtain ⟨hid', -, hcustody'⟩ := h.active x tx' htx'
      exact ⟨hid', hcustody'⟩
    | ok tx' =>
      simp only [hstamp]
      obtain ⟨hid', hphase', hps'⟩ := DistributedTransaction.stamp_ok hstamp
      have hid : tx'.txId = x := hid'.trans hid
      refine h.take hx ⟨hphase' ▸ hphase tx hx, ?_, ?_⟩ (congrArg some hid)
      · rw [hid]
        exact DistributedTransaction.custody_congr hphase' hps' hcustody
      · rwa [hid]

lemma Inv.durable_of_not_shouldLog (hlog : s.shouldLog tx = false) :
    (s.view tx.txId).durable = true := by
  unfold shouldLog at hlog
  cases hd : s.commitLog.getDecision tx.txId with
  | none => simp [hd] at hlog
  | some d =>
    simp only [hd, Bool.or_eq_false_iff, decide_eq_false_iff_not, not_not] at hlog
    have hid : d.txId = tx.txId := by simpa using List.find?_some hd
    rw [← hid]
    exact h.pending d (mem_of_find?_eq_some hd) hlog.1.2

lemma Inv.beginCommitPhase {tx' : DistributedTransaction} (hw : World s t tx.txId)
    (hi : s.calls i = .deciding tx caller) (hid : tx'.txId = tx.txId)
    (hphase : tx'.phase = tx.phase) (hd : (t.view tx.txId).durable = true) :
    Inv (t.beginCommitPhase i tx' caller) := by
  obtain ⟨hcommittable, -, hcaller⟩ : (deciding tx caller).Ok s.view := hi ▸ h.calls i
  have hheld := congrArg held hi
  have loop : ∀ tx'' : DistributedTransaction, tx''.txId = tx.txId →
      Inv (t.setCall i (.committing tx'' tx''.participantShards [] caller)) := by
    intro tx'' hid''
    refine h.act_held hw hheld ⟨?_, ?_⟩ ?_
    · rwa [hid'']
    · rw [hid'']
      exact hcaller.mono hw.allGrows
    · exact fun y hy => (Option.some.inj hy).symm.trans hid''
  unfold ShardCoordinator.beginCommitPhase
  rw [← hphase] at hcommittable
  rcases hcommittable with hp | hp | hp <;> simp only [hp] <;> exact loop _ hid

lemma inv_logDecision (w : WriteOutcome) (hi : s.calls i = .deciding tx caller) :
    Inv (s.logDecision i tx caller w) := by
  obtain ⟨hphase, hcustody, hcaller⟩ : (deciding tx caller).Ok s.view := hi ▸ h.calls i
  have hheld := congrArg held hi
  have hready := DistributedTransaction.ready_of_committable hphase (h.sound _) hcustody
  unfold logDecision
  split_ifs with hlog
  · cases hwrite : s.commitLog.logCommit tx.txId tx.participantShards tx.commitTimestamp w with
    | mk result log =>
      cases result with
      | ok =>
        have hw : w = .written := by
          cases w <;> simp_all [PersistentCommitLog.logCommit, PersistentCommitLog.writeEntry]
        subst hw
        have hlog' : log = (s.commitLog.logCommit tx.txId tx.participantShards
          tx.commitTimestamp .written).2 := by rw [hwrite]
        subst hlog'
        exact h.beginCommitPhase (World.logCommit h hready) hi rfl rfl
          (congrArg View.durable view_logCommit_written)
      | error message =>
        have hw := World.logCommit_failed h hwrite hready
        refine h.commitFailed hw (h.owned_of_held hheld) (h.heldBound i _ hheld) ?_ _
          (hcaller.mono hw.allGrows)
        rintro _ ⟨⟩
        refine ⟨rfl, ?_⟩
        obtain ⟨logged, hview, -⟩ := view_logCommit_failed hwrite
        rw [hview]
        -- a committable transaction does not rely on the log being without a decision
        unfold View.Custody at hcustody ⊢
        rcases hphase with hp | hp | hp <;> simp only [hp] at hcustody ⊢ <;> exact hcustody
  · exact h.beginCommitPhase (.refl h _) hi rfl rfl
      (h.durable_of_not_shouldLog (Bool.eq_false_iff.mpr hlog))

lemma inv_contactCommit (hi : s.calls i = .committing tx rest' unavailable caller) :
    Inv (s.contactCommit i tx rest unavailable caller shard) := by
  obtain ⟨hd, hcaller⟩ : (committing tx rest' unavailable caller).Ok s.view := hi ▸ h.calls i
  have hheld := congrArg held hi
  have quiet : ∀ (tx' : DistributedTransaction) unavailable', tx'.txId = tx.txId →
      Inv (s.setCall i (.committing tx' rest unavailable' caller)) := by
    intro tx' unavailable' hid
    refine h.act_held (.refl h _) hheld ?_ fun y hy => (Option.some.inj hy).symm.trans hid
    exact ⟨hid.symm ▸ hd, hid.symm ▸ hcaller⟩
  unfold contactCommit
  cases hconn : s.connections shard with
  | none => exact quiet _ _ rfl
  | some conn =>
    cases hreq : conn.commitRetrying maxRetries with
    | error e =>
      simp only [hreq]
      cases e
      case participantUnavailable => exact quiet _ _ rfl
      all_goals exact quiet _ _ rfl
    | ok =>
      simp only [hreq]
      refine h.act_held (.emit h rfl ?_) hheld ⟨hd, ?_⟩ fun y hy => (Option.some.inj hy).symm
      · change ((s.emit (.committed tx.txId shard)).view tx.txId).Sound
        rw [view_emit_committed]
        exact ⟨(h.sound _).durable, (h.sound _).logged, fun _ => hd⟩
      · refine hcaller.mono fun y => ?_
        exact ⟨id, id⟩

lemma inv_endCommit (hi : s.calls i = .committing tx rest unavailable caller) :
    Inv (s.endCommit i tx unavailable caller) := by
  obtain ⟨hd, hcaller⟩ : (committing tx rest unavailable caller).Ok s.view := hi ▸ h.calls i
  have hheld := congrArg held hi
  unfold endCommit
  split_ifs with hall
  · exact h.act_held (.refl h _) hheld ⟨hd, hcaller⟩ fun y hy => (Option.some.inj hy).symm
  · have hw := World.markAllUnavailable h tx.txId unavailable
    refine h.commitFailed hw (h.owned_of_held hheld) (h.heldBound i _ hheld) ?_ _
      (hcaller.mono hw.allGrows)
    rintro _ ⟨⟩
    exact ⟨rfl, hw.grows.durable hd⟩

lemma inv_complete (w : WriteOutcome) (hi : s.calls i = .completing tx caller) :
    Inv (s.complete i tx caller w) := by
  obtain ⟨hd, hcaller⟩ : (completing tx caller).Ok s.view := hi ▸ h.calls i
  have hheld := congrArg held hi
  have hw := World.logComplete h (x := tx.txId) (w := w)
  have hcaller' := hcaller.mono hw.allGrows
  have hactive : ∀ tx', s.activeTransactions tx.txId = some tx' → tx'.txId = tx.txId ∧
      ((s.withLog (s.commitLog.logComplete tx.txId w).2).view tx.txId).Custody tx' := by
    intro tx' htx'
    obtain ⟨hid, -, hcustody⟩ := h.active _ tx' htx'
    exact ⟨hid, hcustody.of_logged ((h.sound _).durable hd) hw.grows hw.sound⟩
  simp only [complete]
  cases tx.markCommitted with
  | error e =>
    simp only
    rw [← setActive_self { s with commitLog := (s.commitLog.logComplete tx.txId w).2 } tx.txId]
    exact h.commitFailed hw (h.owned_of_held hheld) (h.heldBound i _ hheld) hactive e hcaller'
  | ok tx' =>
    simp only [commitDone]
    cases caller with
    | client => exact h.act_held hw hheld trivial fun y hy => absurd hy (by simp [held])
    | recovery attempts r =>
      exact h.act_held hw hheld hcaller'.2 fun y hy => absurd hy (by simp [held])

lemma inv_abort (hl : (s.view x).logged = false) : Inv (s.abortDistributedTransaction i x) := by
  unfold abortDistributedTransaction
  cases hx : s.activeTransactions x with
  | none => exact h.reply _
  | some tx =>
    obtain ⟨hid, -, -⟩ := h.active x tx hx
    exact h.take hx (by simpa only [Call.Ok, hid] using hl) (congrArg some hid)

lemma inv_refuse (w : WriteOutcome) (hi : s.calls i = .refusing tx) : Inv (s.refuse i tx w) := by
  have hl : (s.view tx.txId).logged = false := (hi ▸ h.calls i : (refusing tx).Ok s.view)
  have hheld := congrArg held hi
  refine h.act_held (World.logAbort h) hheld ?_ fun y hy => (Option.some.inj hy).symm
  exact (same_writeEntry (by simp)).logged.trans hl

lemma inv_endAbort (w : WriteOutcome) (hi : s.calls i = .aborting tx rest) :
    Inv (s.endAbort i tx w) := by
  have hheld := congrArg held hi
  exact h.act_held (World.logComplete h) hheld trivial fun y hy => absurd hy (by simp [held])

lemma inv_recover (startup : Bool) : Inv (s.recoverPendingTransactions i startup) := by
  refine h.quiet rfl rfl rfl le_rfl rfl (fun d hd => ?_) rfl
  obtain ⟨hmem, hcommit⟩ := mem_filter.mp hd
  exact h.pending d hmem (by simpa using hcommit)

lemma Inv.rebuild {d : CommitLogEntry} (hd : (s.view d.txId).durable = true) (hc : c.Ok s.view)
    (hheld : c.held = none) : Inv ((s.reinsertTransaction (rebuilt d)).setCall i c) := by
  obtain ⟨hphase, hid⟩ := rebuilt_committing d
  have hl := (h.sound _).durable hd
  rw [reinsertTransaction, hid]
  refine h.put (.refl h _) (owned_of_logged hl) (h.bound _ hl) ?_ hc hheld
  rintro _ ⟨⟩
  refine ⟨hid, ?_⟩
  simpa only [View.Custody, hphase] using hd

lemma inv_recoverDecision {r : Recovery} (hi : s.calls i = .recovering r)
    (hs : s.recoverDecision i r x = some t) : Inv t := by
  have hr : r.Ok s.view := (hi ▸ h.calls i : (recovering r).Ok s.view)
  simp only [recoverDecision, Option.map_eq_some_iff] at hs
  obtain ⟨d, hfind, rfl⟩ := hs
  have hid : d.txId = x := by simpa using List.find?_some hfind
  have hd := hr d (mem_of_find?_eq_some hfind)
  refine h.rebuild hd ⟨hid ▸ hd, hid ▸ hd, fun d' hd' => hr d' (mem_of_mem_erase hd')⟩ rfl

lemma inv_retry : Inv (s.retryDeadLetteredTransaction i x) := by
  unfold retryDeadLetteredTransaction
  cases hdead : s.deadLetterQueue x with
  | none => exact h.reply _
  | some dead =>
    simp only
    have h' : Inv { s with deadLetterQueue := update s.deadLetterQueue x none } :=
      { h with }
    cases hfind : s.commitLog.pendingCommits.find? fun d => d.txId = x with
    | none => exact h'.reply _
    | some d =>
      have hid : d.txId = x := by simpa using List.find?_some hfind
      obtain ⟨hmem, hcommit⟩ := mem_filter.mp (mem_of_find?_eq_some hfind)
      have hd := h.pending d hmem (by simpa using hcommit)
      exact h'.rebuild hd ⟨hid ▸ hd, trivial⟩ rfl

lemma inv_endRecovery (r : Recovery) : Inv (s.endRecovery i r) := by
  simp only [endRecovery]
  split_ifs <;> exact h.quiet rfl rfl rfl le_rfl rfl trivial rfl

omit h

lemma Inv.of_idle (hsound : ∀ x, (s.view x).Sound)
    (hbound : ∀ x, (s.view x).logged = true → x.val < s.txIdGenerator)
    (hpending : ∀ d ∈ s.commitLog.pending, d.entryType = .commit → (s.view d.txId).durable = true)
    (hactive : s.activeTransactions = fun _ => none) (hcalls : s.calls = fun _ => .idle) :
    Inv s where
  sound := hsound
  bound := hbound
  pending := hpending
  active x tx hx := by simp [hactive] at hx
  calls i := by simp [hcalls, Call.Ok]
  heldBound i x hi := by simp [hcalls, held] at hi
  alone i x _ hi := by simp [hcalls, held] at hi

lemma view_crash (s : ShardCoordinator) (n : ℕ) (x : TxId) :
    ((s.view x).durable = true → ((s.crash n).view x).durable = true) ∧
      (((s.crash n).view x).logged = true → (s.view x).logged = true) ∧
      ((s.crash n).view x).durable = ((s.crash n).view x).logged := by
  simp only [view, crash, PersistentCommitLog.entries, any_append, append_nil,
    Bool.or_eq_true, any_eq_true]
  refine ⟨.inl, ?_, trivial⟩
  rintro (h | ⟨e, he, hx⟩)
  · exact .inl h
  · exact .inr ⟨e, mem_of_mem_take he, hx⟩

lemma inv_crash (h : Inv s) (n : ℕ) : Inv (s.crash n) := by
  refine .of_idle (fun x => ?_) (fun x hl => ?_) (fun d hd hcommit => ?_) rfl rfl
  · obtain ⟨hdurable, hlogged, hsame⟩ := view_crash s n x
    exact (h.sound x).of_crash rfl rfl rfl rfl hdurable hlogged hsame
  · exact h.bound x ((view_crash s n x).2.1 hl)
  · exact (view_crash s n d.txId).1 (h.pending d hd hcommit)

lemma mem_foldl_scanEntry {found : List CommitLogEntry × List TxId} {d : CommitLogEntry}
    (h : d ∈ (file.foldl PersistentCommitLog.scanEntry found).1) : d ∈ found.1 ∨ d ∈ file := by
  induction file generalizing found with
  | nil => exact .inl h
  | cons e file ih =>
    rcases ih h with h | h
    · have hstep : d ∈ found.1 ∨ d = e := by
        unfold PersistentCommitLog.scanEntry at h
        cases he : e.entryType <;> simp only [he] at h
        case complete => exact .inl (mem_of_mem_filter h)
        all_goals
          split_ifs at h with hdone
          · exact .inl h
          · rcases mem_append.mp h with h | h
            · exact .inl (mem_of_mem_filter h)
            · exact .inr (mem_singleton.mp h)
      rcases hstep with h | rfl
      · exact .inl h
      · exact .inr mem_cons_self
    · exact .inr (mem_cons_of_mem _ h)

lemma le_foldr_max {e : CommitLogEntry} (h : e ∈ file) :
    e.txId.val ≤ (file.map fun e => e.txId.val).foldr max 0 :=
  le_max_of_le' 0 (mem_map_of_mem h) le_rfl

lemma inv_restart (h : Inv s) : Inv s.restart := by
  refine inv_recover (.of_idle (fun x => ?_) (fun x hl => ?_) (fun d hd hcommit => ?_) rfl rfl) true
  · refine (h.sound x).of_crash rfl rfl rfl rfl id (fun hl => ?_) ?_
    · refine (h.sound x).durable ?_
      simpa [view, PersistentCommitLog.new, PersistentCommitLog.entries] using hl
    · simp [view, PersistentCommitLog.new, PersistentCommitLog.entries]
  · simp only [view, PersistentCommitLog.new, PersistentCommitLog.entries, append_nil,
      any_eq_true, CommitLogEntry.commits, decide_eq_true_eq] at hl
    obtain ⟨e, he, -, rfl⟩ := hl
    exact Nat.lt_succ_of_le (le_foldr_max he)
  · simp only [view, PersistentCommitLog.new, any_eq_true, CommitLogEntry.commits,
      decide_eq_true_eq]
    rcases mem_foldl_scanEntry hd with hd | hd
    · exact absurd hd not_mem_nil
    · exact ⟨d, hd, hcommit, rfl⟩

lemma inv_init (shards : List ShardId) : Inv (init shards) :=
  .of_idle (fun _ => ⟨by simp [view, init, PersistentCommitLog.new],
      by simp [view, init, PersistentCommitLog.new, PersistentCommitLog.entries],
      by simp [view, init]⟩)
    (fun _ hl => by simp [view, init, PersistentCommitLog.new, PersistentCommitLog.entries] at hl)
    (fun d hd => by simp [init, PersistentCommitLog.new] at hd) rfl rfl

lemma inv_setHealth (h : Inv s) (healthy : Bool) (shard : ShardId) :
    Inv (s.setHealth healthy shard) :=
  { h with }

lemma inv_contact (h : Inv s) (hs : s.contact i shard = some t) : Inv t := by
  unfold contact at hs
  split at hs
  next hi => exact Option.some.inj (Option.ite_none_right_eq_some.mp hs).2 ▸ inv_contactPrepare h hi
  next tx _ unavailable hi =>
    obtain rfl := Option.some.inj (Option.ite_none_right_eq_some.mp hs).2
    exact inv_contactAbort h hi rfl (hi ▸ h.calls i :) rfl fun _ hl => hl
  next hi => exact Option.some.inj (Option.ite_none_right_eq_some.mp hs).2 ▸ inv_contactCommit h hi
  next tx _ hi =>
    obtain rfl := Option.some.inj (Option.ite_none_right_eq_some.mp hs).2
    exact inv_contactAbort h hi rfl (hi ▸ h.calls i :) rfl fun _ hl => hl
  next => cases hs

lemma inv_proceed (h : Inv s) {clock : Except DistributedTxError Timestamp} {w : WriteOutcome}
    (hs : s.proceed i clock w = some t) : Inv t := by
  unfold proceed at hs
  split at hs
  next hi => exact Option.some.inj hs ▸ inv_endPrepare h hi
  next hi => exact Option.some.inj hs ▸ inv_endAbandon h hi
  next x caller hi =>
    obtain ⟨hd, hcaller⟩ : (calling x caller).Ok s.view := hi ▸ h.calls i
    cases hs
    refine inv_commit h clock hcaller fun tx htx => ?_
    obtain ⟨-, -, hcustody⟩ := h.active x tx htx
    exact DistributedTransaction.committable_of_logged ((h.sound x).durable hd) hcustody
  next hi => exact Option.some.inj hs ▸ inv_logDecision h w hi
  next hi => exact Option.some.inj hs ▸ inv_endCommit h hi
  next hi => exact Option.some.inj hs ▸ inv_complete h w hi
  next hi => exact Option.some.inj hs ▸ inv_refuse h w hi
  next hi => exact Option.some.inj hs ▸ inv_endAbort h w hi
  next r hi =>
    split_ifs at hs with hdone
    exact Option.some.inj hs ▸ inv_endRecovery h r
  next => cases hs

lemma inv_recoverNext (h : Inv s) (hs : s.recoverNext i x = some t) : Inv t := by
  unfold recoverNext at hs
  split at hs
  next hi => exact inv_recoverDecision h hi hs
  next => cases hs

/-! ### Safety -/

/-- Agreement, commit only after every participant acknowledged its prepare, and the same for the
decision to commit. -/
def Safe (s : ShardCoordinator) : Prop :=
  (∀ x p q, Event.committed x p ∈ s.events → Event.aborted x q ∉ s.events) ∧
    (∀ x p, Event.committed x p ∈ s.events → AllPrepared x s.events) ∧
    ∀ e ∈ s.commitLog.entries, e.entryType = .commit → AllPrepared e.txId s.events

lemma Inv.safe (h : Inv s) : s.Safe := by
  have hready : ∀ x p, Event.committed x p ∈ s.events → (s.view x).Ready := by
    intro x p hp
    have hc : (s.view x).committed = true :=
      any_eq_true.mpr ⟨_, hp, by simp [Event.commits]⟩
    exact (h.sound x).logged ((h.sound x).durable ((h.sound x).committed hc))
  refine ⟨?_, ?_, ?_⟩
  · intro x p q hp hq
    have ha : (s.view x).aborted = true := any_eq_true.mpr ⟨_, hq, by simp [Event.aborts]⟩
    exact absurd ((hready x p hp).1.symm.trans ha) (by simp)
  · exact fun x p hp => (hready x p hp).2
  · intro e he hcommit
    have hl : (s.view e.txId).logged = true :=
      any_eq_true.mpr ⟨e, he, by simp [CommitLogEntry.commits, hcommit]⟩
    exact ((h.sound _).logged hl).2

/-- How the coordinator has to be called: commit in a phase that may be committed, abort while no
decision to commit can be in the log, and no id that was aborted handed out again. -/
def Proper (s : ShardCoordinator) : Action → Prop
  | .begin _ _ => ∀ e ∈ s.events, e.aborts ⟨s.txIdGenerator⟩ = false
  | .commit _ x _ => ∀ tx ∈ s.activeTransactions x, tx.phase.Committable
  | .abort _ x => ∀ e ∈ s.commitLog.entries, e.commits x = false
  | _ => True

instance (s : ShardCoordinator) (a : Action) : Decidable (s.Proper a) := by
  cases a <;> unfold Proper <;> infer_instance

lemma eq_of_start {s' : ShardCoordinator} (hs : s.start i s' = some t) : s' = t :=
  Option.some.inj (Option.ite_none_right_eq_some.mp hs).2

lemma inv_step {a : Action} (h : Inv s) (hp : s.Proper a) (hs : s.step a = some t) : Inv t := by
  cases a with
  | begin i participants =>
    obtain rfl := eq_of_start hs
    refine inv_begin h participants ?_
    simpa only [view, any_eq_false, Bool.not_eq_true, Proper] using hp
  | prepare i x clock =>
    obtain rfl := eq_of_start hs
    exact inv_prepare h clock
  | commit i x clock =>
    obtain rfl := eq_of_start hs
    exact inv_commit h clock trivial hp
  | abort i x =>
    obtain rfl := eq_of_start hs
    refine inv_abort h ?_
    simpa only [view, any_eq_false, Bool.not_eq_true, Proper] using hp
  | recover i =>
    obtain rfl := eq_of_start hs
    exact inv_recover h false
  | retry i x =>
    obtain rfl := eq_of_start hs
    exact inv_retry h
  | contact i shard => exact inv_contact h hs
  | recoverNext i x => exact inv_recoverNext h hs
  | proceed i clock w => exact inv_proceed h hs
  | markUnavailable shard => exact Option.some.inj hs ▸ inv_setHealth h false shard
  | markAvailable shard => exact Option.some.inj hs ▸ inv_setHealth h true shard
  | crash n => exact Option.some.inj hs ▸ inv_crash h n
  | restart =>
    simp only [step, Option.ite_none_right_eq_some, Option.some.injEq] at hs
    obtain ⟨-, rfl⟩ := hs
    exact inv_restart h

/-- **Custody.** As long as no decision on a transaction may be in the log, at most one call works on
it, and what the call works on is not in the active map for another to find. -/
theorem custody_run (shards : List ShardId) (as : List Action)
    (hproper : Machine.Along step Proper (init shards) as)
    (hrun : Machine.run step (init shards) as = some s) {i : ℕ} {x : TxId}
    (hundecided : (s.view x).logged = false) (hheld : (s.calls i).held = some x) :
    s.activeTransactions x = none ∧ ∀ j, (s.calls j).held = some x → j = i :=
  (Machine.invariant_run (fun _ _ _ => inv_step) (inv_init shards) hproper hrun).alone i x
    hundecided hheld

section Runs

/-- A step of the call that draws no timestamp and whose log write succeeds. -/
def next : Action := .proceed 0 (.ok ⟨0, 0⟩) .written

/-- Open the coordinator on its log and begin a transaction at the shards `0` and `1`. -/
def opened : List Action := [.restart, next, .begin 0 [0, 1]]

def prepared : List Action := [.prepare 0 ⟨1⟩ (.ok ⟨10, 0⟩), .contact 0 0, .contact 0 1, next]

/-- The commit reaches shard `0` only. -/
def halfCommitted : List Action :=
  [.markUnavailable 1, .commit 0 ⟨1⟩ (.ok ⟨20, 0⟩), next, .contact 0 0, .contact 0 1, next]

/-- The coordinator crashes, and completes what the log holds when it is opened again. -/
def recovered : List Action :=
  [.crash 0, .restart, .recoverNext 0 ⟨1⟩, next, next, .contact 0 0, .contact 0 1, next, next, next]

/-- The caller gives up the transaction that could not be committed everywhere. -/
def givenUp : List Action :=
  [.markAvailable 1, .abort 0 ⟨1⟩, next, .contact 0 0, .contact 0 1, next]

/-- A commit without a prepare; it is refused after the decision was logged. -/
def hasty : List Action := [.commit 0 ⟨1⟩ (.ok ⟨20, 0⟩), next]

/-- A prepare that shard `1` does not answer, and a crash before anything is logged. -/
def abandoned : List Action :=
  [.markUnavailable 1, .prepare 0 ⟨1⟩ (.ok ⟨10, 0⟩), .contact 0 0, .contact 0 1, next,
    .contact 0 0, .contact 0 1, next, .crash 0]

def committedBoth : List Action :=
  [.commit 0 ⟨1⟩ (.ok ⟨20, 0⟩), next, .contact 0 0, .contact 0 1, next, next]

/-- The events and the log of a run. -/
def outcome (as : List Action) : Option (List Event × List CommitLogEntry) :=
  (Machine.run step (init [0, 1]) as).map fun s => (s.events, s.commitLog.entries)

theorem custody_run_prepare : ∃ s,
    Machine.run step (init [0, 1]) (opened ++ prepared.take 2) = some s ∧
      s.activeTransactions ⟨1⟩ = none ∧ ∀ j, (s.calls j).held = some ⟨1⟩ → j = 0 :=
  ⟨_, rfl, custody_run [0, 1] (opened ++ prepared.take 2) (by decide) rfl rfl rfl⟩

end Runs

end Aletheia.Sharding.ShardCoordinator
